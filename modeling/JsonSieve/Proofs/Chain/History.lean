/-
Evaluators have no memory: an evaluator is its cache of compiled patterns, and after any history of
calls it answers the next call as a fresh one does. Every cache that a history leaves is sound, calls
only ever add to it, and a text that is no pattern is never in it and keeps failing in the same way.
-/
import JsonSieve.Chain
import JsonSieve.Proofs.Filter.Steady
import Mathlib.Data.List.Basic

namespace JsonSieve

/-! ## Calls -/

/-- What an evaluator can be asked for. -/
inductive Call where
  | filter (v : Value) (directive : Text)
  | filterWithRoot (v root : Value) (directive : Text)
  | transform (v : Value) (directive : Text)
  | run (v : Value) (directives : List Directive)

/-- What a call gives. -/
inductive Answer where
  | value (result : Except Error Value)
  | record (result : Except DirectiveError (Option Emit))

namespace Call

variable (grants : Reservation)

/-- A call of an evaluator whose patterns are in the cache. -/
def answer : Call → StateM PatternCache Answer
  | .filter v directive => .value <$> (v.filter directive).run
  | .filterWithRoot v root directive => .value <$> (v.filterWithRoot root directive).run
  | .transform v directive => return .value (v.transform grants directive).result
  | .run v directives => .record <$> Chain.run grants directives v

/-- The cache of an evaluator that was fresh before a history of calls. -/
def cacheAfter (history : List Call) : PatternCache :=
  history.foldl (fun cache call => ((call.answer grants).run cache).2) .empty

end Call

/-! ## Chains, directive by directive -/

/-- The patterns that a directive may look for. -/
def Directive.patterns : Directive → List String
  | .filter text => (Filter.parse text.toList).patterns
  | .transform _ | .output _ => []

namespace Compositional

variable {P : ∀ {α : Type}, StateM PatternCache α → Prop} (hP : Compositional P)
include hP

variable (grants : Reservation)

theorem directive (directive : Directive)
    (hmatch : ∀ p ∈ directive.patterns, ∀ s, P (Pattern.isMatch p s).run) (v : Value) :
    P (directive.apply grants v).run := by
  cases directive with
  | filter text => exact hP.apply _ hmatch _ _ _
  | transform text => exact hP.lift _
  | output form => exact hP.pure (Except.ok v)

/-- The induction is on the chain: the records that a directive drops or fails on end it. -/
theorem chain (directives : List Directive)
    (hmatch : ∀ directive ∈ directives, ∀ p ∈ directive.patterns, ∀ s, P (Pattern.isMatch p s).run)
    (v : Value) : P (Chain.run grants directives v) := by
  induction directives generalizing v with
  | nil => exact hP.pure _
  | cons directive rest ih =>
    obtain ⟨hfirst, hrest⟩ := List.forall_mem_cons.1 hmatch
    -- an error of the directive and one of the record both end the chain without another step
    have failed (directive : Directive) (e : Error) : P
        (if e.isFatal then return .error ⟨String.ofList directive.text, e⟩ else return .ok none :
          StateM PatternCache (Except DirectiveError (Option Emit))) := by
      split
      · exact hP.pure _
      · exact hP.pure _
    cases directive with
    | filter text =>
      refine hP.bind (hP.directive grants (.filter text) hfirst v) fun result => ?_
      cases result with
      | ok w => exact ih hrest w
      | error e => exact failed (.filter text) e
    | transform text =>
      refine hP.bind (hP.directive grants (.transform text) hfirst v) fun result => ?_
      cases result with
      | ok w => exact ih hrest w
      | error e => exact failed (.transform text) e
    | output form => exact hP.pure _

end Compositional

/-! ## Steady calls -/

theorem Directive.steady_apply (grants : Reservation) (directive : Directive) (v : Value) :
    Steady (directive.apply grants v).run :=
  Steady.compositional.directive grants directive (fun p _ => Pattern.steady_isMatch p) v

theorem Chain.steady_run (grants : Reservation) (directives : List Directive) (v : Value) :
    Steady (Chain.run grants directives v) :=
  Steady.compositional.chain grants directives (fun _ _ p _ => Pattern.steady_isMatch p) v

namespace Call

variable {grants : Reservation}

theorem steady_answer (grants : Reservation) (call : Call) : Steady (call.answer grants) := by
  cases call with
  | filter v directive => exact Steady.compositional.mapAnswer _ (Filter.steady_apply _ _ _ _)
  | filterWithRoot v root directive => exact Steady.compositional.mapAnswer _ (Filter.steady_apply _ _ _ _)
  | transform v directive => exact Steady.pure _
  | run v directives => exact Steady.compositional.mapAnswer _ (Chain.steady_run grants directives v)

/-! ## Histories -/

theorem sound_foldl (grants : Reservation) (history : List Call) {cache : PatternCache} (hc : cache.Sound) :
    (history.foldl (fun cache call => ((call.answer grants).run cache).2) cache).Sound := by
  induction history generalizing cache with
  | nil => exact hc
  | cons call rest ih => exact ih ((call.steady_answer grants).sound hc)

theorem sound_cacheAfter (grants : Reservation) (history : List Call) : (cacheAfter grants history).Sound :=
  sound_foldl grants history PatternCache.sound_empty

/-- After any history of calls an evaluator answers as a fresh one does. Its cache has each key once, with
the expression compiled from exactly that key; nothing is ever removed or replaced, and what is no pattern
is not cached. -/
theorem answer_forgets_history (grants : Reservation) (history : List Call) (call : Call) :
    ((call.answer grants).run (cacheAfter grants history)).1 = ((call.answer grants).run .empty).1 ∧
    (∀ pattern e, (pattern, e) ∈ (cacheAfter grants history).entries →
      Pattern.compile pattern.toList = .ok e) ∧
    (Entries.keys (cacheAfter grants history).entries).Nodup ∧
    (∀ pattern e, (cacheAfter grants history).get? pattern = some e →
      (cacheAfter grants (history ++ [call])).get? pattern = some e) ∧
    ∀ pattern flaw, Pattern.compile pattern.toList = .error flaw →
      (cacheAfter grants history).contains pattern = false ∧
      ∀ s, (Pattern.isMatch pattern s).run (cacheAfter grants history) =
        (.error (.invalidPattern pattern flaw), cacheAfter grants history) := by
  have hc := sound_cacheAfter grants history
  refine ⟨(call.steady_answer grants).answer hc PatternCache.sound_empty, hc.compiled, hc.once,
    fun pattern e h => ?_, fun pattern flaw h => ?_⟩
  · unfold cacheAfter at h ⊢
    rw [List.foldl_append]
    exact (call.steady_answer grants).keeps h
  · exact ⟨(Pattern.isMatch_of_flaw hc h []).1, fun s => (Pattern.isMatch_of_flaw hc h s).2⟩

theorem answer_forgets_history_malformed_pattern :
    let v : Value := .map [("a", .string "xyz")]
    let history : List Call := [.filter v ".a=/^x/".toList, .filter v ".a=/(/".toList]
    let call : Call := .run v [.filter ".a=/z/", .transform "{.b=.a}"]
    ((call.answer .standard).run (cacheAfter .standard history)).1 = ((call.answer .standard).run .empty).1 ∧
      (cacheAfter .standard (history ++ [call])).get? "^x" =
        some (.seq (.anchor .textStart) (.literal ['x'])) ∧
      (cacheAfter .standard history).contains "(" = false := by
  intro v history call
  have hcached : (cacheAfter .standard history).get? "^x" =
      some (.seq (.anchor .textStart) (.literal ['x'])) := by decide +kernel
  have hflaw : Pattern.compile "(".toList = .error .malformed := by decide +kernel
  obtain ⟨hanswer, -, -, hkeeps, hnever⟩ := answer_forgets_history .standard history call
  exact ⟨hanswer, hkeeps _ _ hcached, (hnever _ _ hflaw).1⟩

end Call

end JsonSieve
