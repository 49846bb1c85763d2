/-
The cache of an evaluator is bounded by the directives, whatever records it sees: nothing is cached but the
patterns that stand in the filters of the chain, each of them once. That the cache holds no other pattern
is an invariant of every matching (`DrawnFrom`), so it is one of every chain and of every row of records.
-/
import JsonSieve.Proofs.Chain.History
import JsonSieve.Proofs.Value.Reordering

namespace JsonSieve

/-! ## Invariants of caches -/

/-- A computation that leaves a cache with a property if it finds one. -/
def Keeps (I : PatternCache → Prop) {α : Type} (x : StateM PatternCache α) : Prop :=
  ∀ cache, I cache → I (x.run cache).2

theorem Keeps.compositional (I : PatternCache → Prop) : Compositional (Keeps I) :=
  ⟨fun _ _ h => h, fun hx hf cache h => hf _ _ (hx cache h)⟩

/-- Every cached pattern is one of a list. -/
def PatternCache.DrawnFrom (patterns : List String) (cache : PatternCache) : Prop :=
  Entries.keys cache.entries ⊆ patterns

theorem Pattern.keeps_isMatch {patterns : List String} {p : String} (hp : p ∈ patterns) (s : Text) :
    Keeps (PatternCache.DrawnFrom patterns) (isMatch p s).run := by
  refine (Keeps.compositional _).andThen (fun cache hc => ?_) fun e => (Keeps.compositional _).pure _
  show PatternCache.DrawnFrom patterns ((compiled p).run cache).2
  rw [compiled_run]
  cases cache.get? p with
  | some e => exact hc
  | none =>
    cases compile p.toList with
    | error flaw => exact hc
    | ok e => exact List.cons_subset.2 ⟨hp, hc⟩

theorem Chain.keeps_run (grants : Reservation) (directives : List Directive) (v : Value) :
    Keeps (PatternCache.DrawnFrom (directives.flatMap Directive.patterns)) (run grants directives v) := by
  refine (Keeps.compositional _).chain grants directives (fun directive hd p hp => ?_) v
  exact Pattern.keeps_isMatch (List.mem_flatMap.2 ⟨directive, hd, hp⟩)

/-- The induction is on the records. -/
theorem Call.drawnFrom_cacheAfter (grants : Reservation) (directives : List Directive) (records : List Value) :
    (cacheAfter grants (records.map (Call.run · directives))).DrawnFrom
      (directives.flatMap Directive.patterns) := by
  have step (cache : PatternCache) (hc : cache.DrawnFrom (directives.flatMap Directive.patterns)) :
      ((records.map (Call.run · directives)).foldl (fun cache call => ((call.answer grants).run cache).2)
        cache).DrawnFrom (directives.flatMap Directive.patterns) := by
    induction records generalizing cache with
    | nil => exact hc
    | cons v records ih =>
      exact ih _ ((Keeps.compositional _).mapAnswer Answer.record (Chain.keeps_run grants directives v) cache hc)
  exact step .empty (List.nil_subset _)

/-! ## The bound -/

/-- The number of places in a filter at which a pattern may start. -/
def Directive.patternSigns : Directive → Nat
  | .filter text => Text.occurrences ['=', '/'] text.toList
  | .transform _ | .output _ => 0

theorem Directive.length_patterns_le (directive : Directive) :
    directive.patterns.length ≤ directive.patternSigns := by
  cases directive with
  | filter text => exact Filter.length_patterns_le text.toList
  | transform text => exact Nat.le_refl 0
  | output form => exact Nat.le_refl 0

/-- After any row of records every cached pattern compiles and stands between its signs in a filter of the
chain, and there are no more cached patterns than places in the filters at which a pattern may start. -/
theorem Call.cache_bounded (grants : Reservation) (directives : List Directive) (records : List Value) :
    let cache := cacheAfter grants (records.map (Call.run · directives))
    (∀ p, cache.contains p = true → (∃ e, Pattern.compile p.toList = .ok e) ∧
      ∃ text, .filter text ∈ directives ∧ ['=', '/'] ++ p.toList ++ ['/'] <:+: text.toList) ∧
    cache.size ≤ (directives.map Directive.patternSigns).sum := by
  intro cache
  have hsound : cache.Sound := sound_cacheAfter grants _
  have hdrawn := drawnFrom_cacheAfter grants directives records
  constructor
  · intro p hp
    have hcached : (cache.get? p).isSome = true := hp
    obtain ⟨e, he⟩ := Option.isSome_iff_exists.1 hcached
    obtain ⟨directive, hd, hmem⟩ := List.mem_flatMap.1 (hdrawn (Entries.mem_keys_iff.2 hcached))
    refine ⟨⟨e, hsound.compile_eq he⟩, ?_⟩
    cases directive with
    | filter text => exact ⟨text, hd, Filter.infix_of_mem_patterns text.toList hmem⟩
    | transform text => cases hmem
    | output form => cases hmem
  · calc cache.size = (Entries.keys cache.entries).length := (List.length_map _).symm
      _ ≤ (directives.flatMap Directive.patterns).length := hsound.once.length_le_of_subset hdrawn
      _ = (directives.map fun directive => directive.patterns.length).sum := List.length_flatMap
      _ ≤ (directives.map Directive.patternSigns).sum :=
        List.sum_le_sum fun directive _ => directive.length_patterns_le

/-- A pattern that stands in two members of a group, and one that no record comes to. -/
theorem Call.cache_bounded_repeated_pattern :
    let directives : List Directive := [.filter "{.a=/x/,.a=/x/}", .filter ".b=/y/"]
    let records : List Value := [.map [("a", .string "xy")], .null]
    let cache := cacheAfter .standard (records.map (Call.run · directives))
    cache.contains "x" = true ∧ (∃ e, Pattern.compile "x".toList = .ok e) ∧ cache.size ≤ 3 := by
  intro directives records cache
  have hcached : (cacheAfter .standard (records.map (Call.run · directives))).contains "x" = true := by decide +kernel
  have hsigns : (directives.map Directive.patternSigns).sum = 3 := by decide +kernel
  obtain ⟨hcompiled, hsize⟩ := cache_bounded .standard directives records
  exact ⟨hcached, (hcompiled "x" hcached).1, hsigns ▸ hsize⟩

end JsonSieve
