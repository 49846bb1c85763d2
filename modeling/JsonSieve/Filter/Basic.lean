/-
Filters: what a filter directive asks of a value, as a tree of operators, and how a directive is
read as one: the bracketed lists of groups and cuts, the form that the start of a directive has, and
the filter of a directive.
-/
import JsonSieve.Error
import JsonSieve.Path.Basic

namespace JsonSieve

/-! ## Groups and cut lists -/

/-- The members of a group after its opening brace, the commas inside inner braces belonging to the
members. The first argument is the number of inner braces that are open. -/
def membersFrom? : Nat → Text → Option (List Text)
  | _, [] => none
  | 0, '}' :: s => if s.isEmpty then some [[]] else none
  | 0, ',' :: s => (membersFrom? 0 s).map ([] :: ·)
  | depth, c :: s =>
    let depth := if c = '{' then depth + 1 else if c = '}' then depth - 1 else depth
    match membersFrom? depth s with
    | some (member :: members) => some ((c :: member) :: members)
    | _ => none

/-- The members of a group that a whole text is. -/
def group? : Text → Option (List Text)
  | '{' :: s => membersFrom? 0 s
  | _ => none

/-- The tokens of a cut list that a whole text is. -/
def cutList? : Text → Option (List Text)
  | '@' :: s => some (Text.splitOn ',' s)
  | _ => none

/-- The members of a group are shorter than what follows its opening brace. -/
theorem length_of_membersFrom? {depth : Nat} {s : Text} {members : List Text}
    (h : membersFrom? depth s = some members) : ∀ m ∈ members, m.length < s.length := by
  fun_induction membersFrom? depth s generalizing members with
  | case1 => cases h
  | case2 s hs => cases h; intro m hm; rw [List.mem_singleton.1 hm]; exact Nat.zero_lt_succ _
  | case3 s hs => cases h
  | case4 s ih =>
    obtain ⟨ms, hms, rfl⟩ := Option.map_eq_some_iff.1 h
    intro m hm
    rcases List.mem_cons.1 hm with rfl | hm
    · exact Nat.zero_lt_succ _
    · exact Nat.lt_succ_of_lt (ih hms m hm)
  | case5 depth c s _ _ _ m ms hms =>
    rename_i ih
    cases h
    intro m' hm
    rcases List.mem_cons.1 hm with rfl | hm
    · exact Nat.succ_lt_succ (ih hms m List.mem_cons_self)
    · exact Nat.lt_succ_of_lt (ih hms m' (List.mem_cons_of_mem _ hm))
  | case6 => cases h

/-- The members of a group are shorter than the group. -/
theorem length_of_group? {s : Text} {members : List Text} (h : group? s = some members) :
    ∀ m ∈ members, m.length < s.length := by
  unfold group? at h
  split at h
  · exact fun m hm => Nat.lt_succ_of_lt (length_of_membersFrom? h m hm)
  · cases h

/-! ## Operators -/

/-- A filter. -/
inductive Filter where
  /-- Passes every value: the rest of a directive that ends at an index or a field. -/
  | pass
  /-- Passes the scalars that a literal denotes. -/
  | equals (literal : Text)
  /-- Passes the values equal to the one at a path in the root. -/
  | equalsAt (path : Path)
  /-- Passes a list with the items that pass. -/
  | everyItem (rest : Filter)
  /-- Passes a list unchanged if an item passes. -/
  | someItem (rest : Filter)
  /-- Passes a map with the entries whose contents pass. -/
  | everyField (rest : Filter)
  /-- Passes a map unchanged if the content of an entry passes. -/
  | someField (rest : Filter)
  /-- Passes a list if its item at an index passes. -/
  | item (i : UInt64) (rest : Filter)
  /-- Passes a map if the content of a field passes, and everything that is no map. The empty name
  stands for the map itself. -/
  | field (name : String) (rest : Filter)
  /-- Applies the first member of a group, written as `text`, with the value as its root, and then
  the members after it. -/
  | member (text : Text) (first others : Filter)
  /-- Passes a list or a map with what the tokens name. -/
  | cut (tokens : List Text)
  /-- Fails on every value. -/
  | refuse (e : Error)
  deriving DecidableEq, Repr

namespace Filter

/-! ## Reading -/

/-- The forms that a directive can have, each with what is left to read. -/
inductive Form where
  | empty
  | comparison (literal : Text)
  | everyItem (rest : Text)
  | someItem (rest : Text)
  | everyField (rest : Text)
  | someField (rest : Text)
  | item (i : UInt64) (rest : Text)
  | field (name rest : Text)
  | group (members : List Text)
  | cut (tokens : List Text)
  | unknown
  deriving DecidableEq, Repr

/-- The form of a directive that starts with no fixed operator: an index, a field, a group or a cut
list, or else none. -/
def Form.ofOperand (d : Text) : Form :=
  match exactIndex? d with
  | some (i, rest) => .item i rest
  | none =>
    match exactField? d with
    | some (name, rest) => .field name rest
    | none =>
      match group? d with
      | some members => .group members
      | none =>
        match cutList? d with
        | some tokens => .cut tokens
        | none => .unknown

/-- The form of a directive. -/
def Form.of : Text → Form
  | [] => .empty
  | '=' :: literal => .comparison literal
  | '[' :: ']' :: rest => .everyItem rest
  | '[' :: 'E' :: ']' :: rest => .someItem rest
  | '.' :: '(' :: ')' :: rest => .everyField rest
  | '.' :: '(' :: 'E' :: ')' :: rest => .someField rest
  | d => .ofOperand d

/-- The texts that a form leaves to read as directives. -/
def Form.parts : Form → List Text
  | .everyItem rest | .someItem rest | .everyField rest | .someField rest
  | .item _ rest | .field _ rest => [rest]
  | .group members => members
  | .empty | .comparison _ | .cut _ | .unknown => []

/-- What the form of an operand leaves to read is shorter than the directive. -/
theorem Form.length_of_ofOperand {d part : Text} (h : part ∈ (Form.ofOperand d).parts) :
    part.length < d.length := by
  unfold Form.ofOperand at h
  split at h
  · rename_i i rest hi
    rw [List.mem_singleton.1 h]; exact length_of_exactIndex? hi
  · split at h
    · rename_i name rest hf
      rw [List.mem_singleton.1 h]; exact length_of_exactField? hf
    · split at h
      · rename_i members hg
        exact length_of_group? hg part h
      · split at h <;> cases h

/-- What a form leaves to read is shorter than the directive. -/
theorem Form.length_of_mem_parts {d part : Text} (h : part ∈ (Form.of d).parts) :
    part.length < d.length := by
  have longer (front rest : Text) (hf : front ≠ []) (hp : part ∈ [rest]) :
      part.length < (front ++ rest).length := by
    have := List.length_pos_iff.2 hf
    rw [List.mem_singleton.1 hp, List.length_append]; omega
  unfold Form.of at h
  split at h
  · cases h
  · cases h
  · rename_i rest; exact longer ['[', ']'] rest (by decide) h
  · rename_i rest; exact longer ['[', 'E', ']'] rest (by decide) h
  · rename_i rest; exact longer ['.', '(', ')'] rest (by decide) h
  · rename_i rest; exact longer ['.', '(', 'E', ')'] rest (by decide) h
  · exact Form.length_of_ofOperand h

/-- The filter of a comparison: with the value at a path if the literal starts like one, and
otherwise with the literal. -/
def ofLiteral (literal : Text) : Filter :=
  match literal with
  | '.' :: _ | '[' :: _ =>
    match Path.parse literal with
    | .ok path => .equalsAt path
    | .error e => .refuse e
  | _ => .equals literal

/-- The filter of a directive. What follows an index or a field may be empty, and then everything
passes; no other directive may. -/
def parse (d : Text) : Filter :=
  match _h : Form.of d with
  | .empty => .refuse (.unrecognized "")
  | .comparison literal => ofLiteral literal
  | .everyItem rest => .everyItem (parse rest)
  | .someItem rest => .someItem (parse rest)
  | .everyField rest => .everyField (parse rest)
  | .someField rest => .someField (parse rest)
  | .item i rest => .item i (if rest.isEmpty then .pass else parse rest)
  | .field name rest =>
    .field (String.ofList name) (if rest.isEmpty then .pass else parse rest)
  | .group members =>
    members.attach.foldr (fun ⟨text, _⟩ others => .member text (parse text) others) .pass
  | .cut tokens => .cut tokens
  | .unknown => .refuse (.unrecognized (String.ofList d))
termination_by d.length
decreasing_by
  all_goals
    apply Form.length_of_mem_parts
    simp_all [Form.parts]

end Filter

end JsonSieve
