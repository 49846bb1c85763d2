/-
Groups in a chain: a group in one place of a chain makes of every record what its members make of it
in its place, in order. Both come down to one computation, each member filtering what the one before
it left until one fails (`outcome_members`), and what stands before and after them in the chain does
not tell them apart (`outcome_append`).
-/
import JsonSieve.Chain
import JsonSieve.Proofs.Filter.Group
import JsonSieve.Proofs.Pattern.Steady
import Mathlib.Data.List.Basic

namespace JsonSieve

namespace Chain

/-! ## What a chain makes of a record -/

/-- What a chain makes of a record, an error being told without the directive that it comes from. -/
def outcome (grants : Reservation) (directives : List Directive) (v : Value) :
    StateM PatternCache (Except Error (Option Emit)) :=
  Except.mapError DirectiveError.cause <$> run grants directives v

/-- What is made of a record by a computation and, if it gives a value, by the chain after it. -/
def resume (x : Run Value) (next : Value → StateM PatternCache (Except Error (Option Emit))) :
    StateM PatternCache (Except Error (Option Emit)) := do
  match ← x.run with
  | .ok w => next w
  | .error e => return if e.isFatal then .error e else .ok none

variable {grants : Reservation} {next : Value → StateM PatternCache (Except Error (Option Emit))}

theorem resume_bind (x : Run Value) (f : Value → Run Value) :
    resume (x >>= f) next = resume x fun w => resume (f w) next := by
  unfold resume
  rw [ExceptT.run_bind, bind_assoc]
  refine congrArg (x.run >>= ·) (funext fun result => ?_)
  cases result with
  | ok w => rfl
  | error e => rfl

/-- A directive that ends no chain is applied, and the chain goes on with the value that it gives. -/
theorem outcome_cons {directive : Directive} (h : ∀ form, directive ≠ .output form)
    (rest : List Directive) (v : Value) :
    outcome grants (directive :: rest) v = resume (directive.apply grants v) (outcome grants rest) := by
  have ended (e : Error) : Except.mapError DirectiveError.cause <$>
      (if e.isFatal then return .error ⟨String.ofList directive.text, e⟩ else return .ok none :
        StateM PatternCache (Except DirectiveError (Option Emit))) =
      return if e.isFatal then .error e else .ok none := by
    by_cases he : e.isFatal
    · rw [if_pos he, if_pos he]; rfl
    · rw [if_neg he, if_neg he]; rfl
  unfold outcome resume
  rw [run, map_bind]
  · refine congrArg ((directive.apply grants v).run >>= ·) (funext fun result => ?_)
    cases result with
    | ok w => rfl
    | error e => exact ended e
  · exact h

/-- Chains that make the same of every record still do so after the same directives. -/
theorem outcome_append {one other : List Directive} (h : ∀ v, outcome grants one v = outcome grants other v)
    (front : List Directive) (v : Value) : outcome grants (front ++ one) v = outcome grants (front ++ other) v := by
  induction front generalizing v with
  | nil => exact h v
  | cons directive front ih =>
    by_cases hform : ∃ form, directive = .output form
    · obtain ⟨form, rfl⟩ := hform
      rfl
    · have hends : ∀ form, directive ≠ .output form := fun form hd => hform ⟨form, hd⟩
      rw [List.cons_append, List.cons_append, outcome_cons hends, outcome_cons hends, funext ih]

/-! ## Groups -/

/-- The members of a group as directives of a chain. -/
def filters (members : List Text) : List Directive :=
  members.map fun member => .filter (String.ofList member)

theorem outcome_filter (text : Text) (rest : List Directive) (v : Value) :
    outcome grants (.filter (String.ofList text) :: rest) v = resume (v.filter text) (outcome grants rest) := by
  rw [outcome_cons (fun _ hd => by cases hd), Directive.apply, String.toList_ofList]

/-- Filters in a chain come down to filtering with one after the other. -/
theorem outcome_members (members : List Text) (rest : List Directive) (v : Value) :
    outcome grants (filters members ++ rest) v = resume (members.foldlM Value.filter v) (outcome grants rest) := by
  induction members generalizing v with
  | nil => rfl
  | cons text others ih =>
    have hothers : outcome grants (filters others ++ rest) =
        fun w => resume (others.foldlM Value.filter w) (outcome grants rest) := funext ih
    rw [List.foldlM_cons, resume_bind, ← hothers]
    exact outcome_filter text (filters others ++ rest) v

/-- A group is the chain of its members, under any root: the first member that fails ends it, with the
error and the cache that it left. In any place of a chain the members can stand for the group. -/
theorem group_is_chain_of_members (grants : Reservation) {members : List Text} (hne : members ≠ [])
    (h : ∀ member ∈ members, Text.IsMember member) :
    (∀ v root : Value, v.filterWithRoot root (Filter.groupOf members) =
      members.foldlM Value.filter v) ∧
    (∀ passed text others, members = passed ++ text :: others →
      ∀ (v w root : Value) (e : Error) (cache cache' cache'' : PatternCache),
        (passed.foldlM Value.filter v).run cache = (.ok w, cache') →
        (w.filter text).run cache' = (.error e, cache'') →
        (v.filterWithRoot root (Filter.groupOf members)).run cache = (.error e, cache'')) ∧
    ∀ (front rest : List Directive) (v : Value) (cache : PatternCache),
      (outcome grants (front ++ .filter (String.ofList (Filter.groupOf members)) :: rest) v).run cache =
        (outcome grants (front ++ filters members ++ rest) v).run cache := by
  have hgroup := Value.filterWithRoot_groupOf hne h
  refine ⟨hgroup, ?_, ?_⟩
  · rintro passed text others rfl v w root e cache cache' cache'' hpassed hfails
    rw [hgroup, List.foldlM_append, Run.run_bind, hpassed]
    show ((text :: others).foldlM Value.filter w).run cache' = (.error e, cache'')
    rw [List.foldlM_cons, Run.run_bind, hfails]
  · intro front rest v cache
    rw [List.append_assoc]
    refine congrFun (outcome_append (fun w => ?_) front v) cache
    rw [outcome_filter, outcome_members, Value.filter, hgroup]

/-- A group in a group, a pattern, a cut whose result is the root of the member after it, a field that
the cut has removed, and a pattern that no longer comes to be compiled. -/
theorem group_is_chain_of_members_nested :
    let v : Value := .map [("a", .int 1), ("b", .string "x"), ("c", .int 2)]
    let passed := ["{.a=1,.b=/x/}".toList, "@b".toList, ".b=.b".toList]
    let members := passed ++ [".c=2".toList, ".b=/(/".toList]
    members ≠ [] ∧ (∀ member ∈ members, Text.IsMember member) ∧
      (v.filterWithRoot .null (Filter.groupOf members)).run .empty =
        (.error .notFound, ⟨[("x", .literal ['x'])]⟩) ∧
      (outcome .standard [.transform "{.d=.b}", .filter (String.ofList (Filter.groupOf members)),
          .output (.template "t")] v).run .empty =
        (outcome .standard (.transform "{.d=.b}" :: filters members ++ [.output (.template "t")]) v).run
          .empty := by
  intro v passed members
  have hne : members ≠ [] := by decide
  have h : ∀ member ∈ members, Text.IsMember member := by decide
  have hpassed : (passed.foldlM Value.filter v).run .empty =
      (.ok (.map [("b", .string "x")]), ⟨[("x", .literal ['x'])]⟩) := by decide +kernel
  obtain ⟨-, hfirst, hchain⟩ := group_is_chain_of_members .standard hne h
  exact ⟨hne, h, hfirst passed _ _ rfl v _ _ _ _ _ _ hpassed (by decide +kernel),
    hchain [.transform "{.d=.b}"] [.output (.template "t")] v .empty⟩

end Chain

end JsonSieve
