/-
The cache of compiled patterns, "keyed by their source text and never evicted": on every cache that
can arise each key is kept with the expression compiled from exactly that key (`Sound`), and a
computation is steady if on such caches its answer does not depend on what is cached, and if it only
adds sound entries. Looking up or compiling a pattern is steady, and so is whatever is built from
steady computations: what is built is followed through once, for every property that one computation
after another has if both have it (`Compositional`).
-/
import JsonSieve.Pattern.Cache
import JsonSieve.Proofs.Value.Entries
import Mathlib.Data.List.Nodup

namespace JsonSieve

/-! ## Computations in sequence -/

/-- What follows goes on with the cache that is left. -/
theorem PatternCache.run_bind {α β : Type} (x : StateM PatternCache α) (f : α → StateM PatternCache β)
    (cache : PatternCache) : (x >>= f).run cache = (f (x.run cache).1).run (x.run cache).2 := rfl

namespace Run

variable {α β : Type}

/-- What follows a computation goes on with the cache that it left, unless it failed. -/
theorem run_bind (x : Run α) (f : α → Run β) (cache : PatternCache) :
    (x >>= f).run cache =
      match x.run cache with
      | (.ok a, cache') => (f a).run cache'
      | (.error e, cache') => (.error e, cache') := by
  rw [ExceptT.run_bind]
  refine (PatternCache.run_bind x.run _ cache).trans ?_
  rw [StateT.run, StateT.run]
  rcases x.run cache with ⟨_ | _, _⟩ <;> rfl

/-- A handler of errors goes on with the cache that the failed computation left. -/
theorem run_tryCatch (x : Run α) (handler : Error → Run α) :
    (tryCatch x handler).run = x.run >>= fun r =>
      match r with
      | .ok a => pure (.ok a)
      | .error e => (handler e).run := by
  simp only [tryCatch, tryCatchThe, MonadExceptOf.tryCatch, ExceptT.tryCatch]
  -- the two handlers are different matches, equal only in each case
  refine congrArg (x.run >>= ·) (funext fun r => ?_)
  cases r <;> rfl

end Run

/-! ## Properties of computations -/

/-- A property of computations that those have which leave the cache alone, and that one computation after
another has if both have it. -/
structure Compositional (P : ∀ {α : Type}, StateM PatternCache α → Prop) : Prop where
  pure : ∀ {α : Type} (a : α), P (Pure.pure a : StateM PatternCache α)
  bind : ∀ {α β : Type} {x : StateM PatternCache α} {f : α → StateM PatternCache β},
    P x → (∀ a, P (f a)) → P (x >>= f)

namespace Compositional

variable {P : ∀ {α : Type}, StateM PatternCache α → Prop} (hP : Compositional P) {α β : Type}
include hP

theorem mapAnswer (f : α → β) {x : StateM PatternCache α} (hx : P x) : P (f <$> x) := by
  rw [map_eq_pure_bind]
  exact hP.bind hx fun a => hP.pure (f a)

/-! Computations that may fail -/

theorem raise (e : Error) : P (ExceptT.run (throwThe Error e : Run α)) :=
  hP.pure (Except.error e)

theorem lift (x : Except Error α) : P (ExceptT.run (liftM x : Run α)) :=
  hP.pure x

/-- What follows a computation runs only if that does not fail. -/
theorem andThen {x : Run α} {f : α → Run β} (hx : P x.run) (hf : ∀ a, P (f a).run) :
    P (x >>= f).run := by
  rw [ExceptT.run_bind]
  refine hP.bind hx fun r => ?_
  cases r with
  | ok a => exact hf a
  | error e => exact hP.pure _

theorem map (f : α → β) {x : Run α} (hx : P x.run) : P (f <$> x).run := by
  rw [ExceptT.run_map]
  exact hP.bind hx fun r => hP.pure (Except.map f r)

theorem handle {x : Run α} {handler : Error → Run α} (hx : P x.run)
    (hh : ∀ e, P (handler e).run) : P (tryCatch x handler).run := by
  rw [Run.run_tryCatch]
  refine hP.bind hx fun r => ?_
  cases r with
  | ok a => exact hP.pure _
  | error e => exact hh e

end Compositional

/-! ## Sound caches -/

namespace PatternCache

/-- The invariant of caches: each key compiles and is kept with the expression compiled from it, and
no key is kept twice. -/
structure Sound (cache : PatternCache) : Prop where
  compiled : ∀ pattern e, (pattern, e) ∈ cache.entries → Pattern.compile pattern.toList = .ok e
  once : (Entries.keys cache.entries).Nodup

theorem sound_empty : empty.Sound :=
  ⟨fun _ _ h => (nomatch h), List.nodup_nil⟩

theorem Sound.compile_eq {cache : PatternCache} (hc : cache.Sound) {pattern : String}
    {e : Pattern.Expr} (h : cache.get? pattern = some e) : Pattern.compile pattern.toList = .ok e :=
  hc.compiled pattern e (Entries.mem_of_get? h)

theorem Sound.insert {cache : PatternCache} (hc : cache.Sound) {pattern : String} {e : Pattern.Expr}
    (hnew : cache.get? pattern = none) (he : Pattern.compile pattern.toList = .ok e) :
    (cache.insert pattern e).Sound := by
  refine ⟨fun key e' hm => ?_, List.nodup_cons.2 ⟨Entries.notMem_keys_of_get? hnew, hc.once⟩⟩
  rcases List.mem_cons.1 hm with h | h
  · cases h; exact he
  · exact hc.compiled key e' h

/-- A new entry hides none of the old ones. -/
theorem get?_insert {cache : PatternCache} {pattern key : String} {e e' : Pattern.Expr}
    (hnew : cache.get? pattern = none) (h : cache.get? key = some e') :
    (cache.insert pattern e).get? key = some e' := by
  have hk : pattern ≠ key := by rintro rfl; rw [hnew] at h; cases h
  unfold get? insert
  rw [Entries.get?, if_neg hk]; exact h

end PatternCache

/-! ## Steady computations -/

/-- A computation whose answer is the same on all sound caches, which keeps caches sound, and which
neither removes nor replaces what is cached. -/
structure Steady {α : Type} (x : StateM PatternCache α) : Prop where
  answer : ∀ {cache cache'}, cache.Sound → cache'.Sound → (x.run cache).1 = (x.run cache').1
  sound : ∀ {cache}, cache.Sound → (x.run cache).2.Sound
  keeps : ∀ {cache pattern e}, PatternCache.get? cache pattern = some e →
    (x.run cache).2.get? pattern = some e

namespace Steady

variable {α β : Type}

theorem pure (a : α) : Steady (Pure.pure a) :=
  ⟨fun _ _ => rfl, id, id⟩

theorem bind {x : StateM PatternCache α} {f : α → StateM PatternCache β} (hx : Steady x)
    (hf : ∀ a, Steady (f a)) : Steady (x >>= f) := by
  refine ⟨fun {c c'} hc hc' => ?_, fun {c} hc => ?_, fun {c p e} h => ?_⟩
  -- the second part starts from two caches that may differ, but both are sound
  · show ((f (x.run c).1).run (x.run c).2).1 = ((f (x.run c').1).run (x.run c').2).1
    rw [hx.answer hc hc']
    exact (hf _).answer (hx.sound hc) (hx.sound hc')
  · exact (hf (x.run c).1).sound (hx.sound hc)
  · exact (hf (x.run c).1).keeps (hx.keeps h)

theorem compositional : Compositional Steady :=
  ⟨pure, bind⟩

theorem throw (e : Error) : Steady (ExceptT.run (throwThe Error e : Run α)) :=
  compositional.raise e

theorem andThen {x : Run α} {f : α → Run β} (hx : Steady x.run) (hf : ∀ a, Steady (f a).run) :
    Steady (x >>= f).run :=
  compositional.andThen hx hf

theorem map (f : α → β) {x : Run α} (hx : Steady x.run) : Steady (f <$> x).run :=
  compositional.map f hx

end Steady

/-! ## Patterns -/

namespace Pattern

theorem compiled_run (pattern : String) (cache : PatternCache) :
    (compiled pattern).run cache =
      match cache.get? pattern with
      | some e => (.ok e, cache)
      | none =>
        match compile pattern.toList with
        | .error flaw => (.error (.invalidPattern pattern flaw), cache)
        | .ok e => (.ok e, cache.insert pattern e) := by
  show (match cache.get? pattern with
    | some e => (Pure.pure e : Run Expr)
    | none => _ : Run Expr).run cache = _
  cases cache.get? pattern with
  | some e => rfl
  | none =>
    cases compile pattern.toList with
    | error flaw => rfl
    | ok e => rfl

/-- On a sound cache the answer is that of compiling afresh. -/
theorem compiled_answer {cache : PatternCache} (hc : cache.Sound) (pattern : String) :
    ((compiled pattern).run cache).1 =
      match compile pattern.toList with
      | .error flaw => .error (.invalidPattern pattern flaw)
      | .ok e => .ok e := by
  rw [compiled_run]
  cases hp : cache.get? pattern with
  | some e => simp only [hc.compile_eq hp]
  | none => cases compile pattern.toList <;> rfl

theorem steady_compiled (pattern : String) : Steady (compiled pattern).run := by
  refine ⟨fun hc hc' => ?_, fun {cache} hc => ?_, fun {cache key e} h => ?_⟩
  · exact (compiled_answer hc pattern).trans (compiled_answer hc' pattern).symm
  · show ((compiled pattern).run cache).2.Sound
    rw [compiled_run]
    cases hp : cache.get? pattern with
    | some e => exact hc
    | none =>
      cases he : compile pattern.toList with
      | error flaw => exact hc
      | ok e => exact hc.insert hp he
  · show ((compiled pattern).run cache).2.get? key = some e
    rw [compiled_run]
    cases hp : cache.get? pattern with
    | some e' => exact h
    | none =>
      cases compile pattern.toList with
      | error flaw => exact h
      | ok e' => exact PatternCache.get?_insert hp h

theorem steady_isMatch (pattern : String) (s : Text) : Steady (isMatch pattern s).run :=
  (steady_compiled pattern).andThen fun e => Steady.pure (Except.ok (e.matchesIn s))

/-- A text that is no pattern is in no sound cache, and matching by it fails in the same way on each,
leaving it as it is. -/
theorem isMatch_of_flaw {cache : PatternCache} (hc : cache.Sound) {pattern : String} {flaw : Flaw}
    (h : compile pattern.toList = .error flaw) (s : Text) :
    cache.contains pattern = false ∧
      (isMatch pattern s).run cache = (.error (.invalidPattern pattern flaw), cache) := by
  have hnew : cache.get? pattern = none := by
    cases hp : cache.get? pattern with
    | none => rfl
    | some e => rw [hc.compile_eq hp] at h; cases h
  have hrun := compiled_run pattern cache
  simp only [hnew, h] at hrun
  refine ⟨by rw [PatternCache.contains, hnew]; rfl, ?_⟩
  rw [isMatch, Run.run_bind, hrun]

end Pattern

end JsonSieve
