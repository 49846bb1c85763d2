/-
What can be told from a computation that passes: the parts of a sequence have passed, what passes a test
or is absorbed, and the items that a walk over a list has kept.
-/
import JsonSieve.Filter.Apply
import JsonSieve.Proofs.Pattern.Steady
import Mathlib.Data.List.Forall2

namespace JsonSieve.Run

variable {α β : Type} {x : Run α} {f : α → Run β} {cache cache' : PatternCache} {a : α} {b : β}

theorem bind_ok (h : (x >>= f).run cache = (.ok b, cache')) :
    ∃ a middle, x.run cache = (.ok a, middle) ∧ (f a).run middle = (.ok b, cache') := by
  rw [run_bind] at h
  rcases hx : x.run cache with ⟨e | a, middle⟩
  · rw [hx] at h; cases h
  · rw [hx] at h; exact ⟨a, middle, rfl, h⟩

theorem map_ok {g : α → β} (h : (g <$> x).run cache = (.ok b, cache')) :
    ∃ a, x.run cache = (.ok a, cache') ∧ g a = b := by
  rw [map_eq_pure_bind] at h
  obtain ⟨a, middle, hx, hpure⟩ := bind_ok h
  cases hpure
  exact ⟨a, hx, rfl⟩

/-- A test that passes a value passes it unchanged. -/
theorem passIf_ok {test : Run Bool} {v w : Value}
    (h : (do if ← test then return v else throw .noMatch : Run Value).run cache = (.ok w, cache')) :
    w = v := by
  obtain ⟨passed, middle, -, hthen⟩ := bind_ok h
  cases passed with
  | true => cases hthen; rfl
  | false => cases hthen

theorem absorb_run (x : Run α) (cache : PatternCache) :
    (absorb x).run cache =
      match x.run cache with
      | (.ok a, cache') => (.ok (some a), cache')
      | (.error e, cache') => if e.isFatal then (.error e, cache') else (.ok none, cache') := by
  have hmap : StateT.run (Except.map some <$> x.run) cache =
      (Except.map some (x.run cache).1, (x.run cache).2) := rfl
  rw [absorb, run_tryCatch, ExceptT.run_map]
  refine (PatternCache.run_bind _ _ cache).trans ?_
  rw [hmap]
  obtain ⟨e | a, cache'⟩ := x.run cache
  · by_cases he : e.isFatal
    · simp only [Except.map, if_pos he]; rfl
    · simp only [Except.map, if_neg he]; rfl
  · rfl

/-- The items that are kept come from items that passed, in their order. -/
theorem keepPassing_ok {test : α → Run β} {kept : β → α → Prop}
    (htest : ∀ x y cache cache', (test x).run cache = (.ok y, cache') → kept y x) {xs : List α}
    {ys : List β} (h : (keepPassing test xs).run cache = (.ok ys, cache')) :
    List.SublistForall₂ kept ys xs := by
  induction xs generalizing ys cache with
  | nil => cases h; exact .nil
  | cons x xs ih =>
    rw [keepPassing] at h
    obtain ⟨passed, middle, hfirst, hrest⟩ := bind_ok h
    rw [absorb_run] at hfirst
    rcases hx : (test x).run cache with ⟨e | y, after⟩
    · rw [hx] at hfirst
      dsimp only at hfirst
      split at hfirst
      · cases hfirst
      · cases hfirst; exact .cons_right (ih hrest)
    · rw [hx] at hfirst
      cases hfirst
      obtain ⟨zs, last, hzs, hcons⟩ := bind_ok hrest
      cases hcons
      exact .cons (htest x y _ _ hx) (ih hzs)

end JsonSieve.Run
