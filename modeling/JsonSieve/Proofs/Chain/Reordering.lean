/-
Chains on records that differ in the visiting order of entries: they emit values that differ in no more,
or drop both, unless a filter that tests for some entry of a map comes upon an error of the directive in
the one order and not in the other.
-/
import JsonSieve.Proofs.Chain.Compose
import JsonSieve.Proofs.Chain.History
import JsonSieve.Proofs.Filter.Reordering
import JsonSieve.Proofs.Transform.Reordering

namespace JsonSieve

open Value (Alike)

variable {grants : Reservation} {directive : Directive} {chain rest : List Directive} {v w : Value}

/-- Whether a directive is a filter that tests for some entry of a map. -/
def Directive.testsFields : Directive → Bool
  | .filter text => (Filter.parse text.toList).testsFields
  | .transform _ | .output _ => false

theorem Filter.rootIfNeeded_alike (text : Text) (v w : Value) (h : Alike v w) :
    Alike (rootIfNeeded text v) (rootIfNeeded text w) := by
  unfold rootIfNeeded
  split
  · exact h
  · exact .null

namespace Chain

/-- What a fresh evaluator makes of a record. -/
def answer (grants : Reservation) (chain : List Directive) (v : Value) : Except DirectiveError (Option Emit) :=
  ((run grants chain v).run .empty).1

theorem answer_cons (grants : Reservation) (h : ∀ form, directive ≠ .output form) (rest : List Directive) (v : Value) :
    answer grants (directive :: rest) v =
      match (directive.apply grants v).answer with
      | .ok w => answer grants rest w
      | .error e => if e.isFatal then .error ⟨String.ofList directive.text, e⟩ else .ok none := by
  have hsound : ((directive.apply grants v).run .empty).2.Sound :=
    (Directive.steady_apply grants directive v).sound PatternCache.sound_empty
  unfold answer Run.answer
  rw [run_cons grants h]
  rcases hstep : (directive.apply grants v).run .empty with ⟨e | w, cache⟩
  · dsimp only
    split <;> rfl
  · rw [hstep] at hsound
    exact (steady_run grants rest w).answer hsound PatternCache.sound_empty

end Chain

end JsonSieve
