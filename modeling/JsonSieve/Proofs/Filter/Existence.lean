/-
Existence, the dual of exclusion. Both try the rest of a directive on the items one after the other: exclusion
goes on to the end and keeps what passes, existence stops at the first item that passes and keeps everything.
So, where no item fails by an error of the directive, something exists just where something is kept. Otherwise
existence is decided by the first item that is no mismatch, and what would fail behind an item that passes is
never come upon.
-/
import JsonSieve.Proofs.Filter.Exclusion

namespace JsonSieve

/-! ## Searches -/

namespace Results

variable {α β γ : Type} {f : α → Except Error β} {xs ys : List α}

/-- A search is decided by the first item that is no mismatch: it passes, or it fails. -/
theorem found_map_cases (f : α → Except Error β) (xs : List α) :
    (∀ x ∈ xs, Mismatches (f x)) ∧ found (xs.map f) = .ok false ∨
    ∃ before x after, xs = before ++ x :: after ∧ (∀ y ∈ before, Mismatches (f y)) ∧
      ((∃ y, f x = .ok y) ∧ found (xs.map f) = .ok true ∨
        ∃ e, f x = .error e ∧ e.isFatal = true ∧ found (xs.map f) = .error e) := by
  induction xs with
  | nil => exact .inl ⟨List.forall_mem_nil _, rfl⟩
  | cons x xs ih =>
    rw [List.map_cons]
    rcases result_cases (f x) with ⟨y, hy⟩ | hmis | ⟨e, he, hfatal⟩
    · exact .inr ⟨[], x, xs, rfl, List.forall_mem_nil _, .inl ⟨⟨y, hy⟩, by rw [hy]; rfl⟩⟩
    · rw [found_of_mismatch hmis]
      rcases ih with ⟨hall, hfound⟩ | ⟨before, z, after, rfl, hbefore, hdecides⟩
      · exact .inl ⟨List.forall_mem_cons.2 ⟨hmis, hall⟩, hfound⟩
      · exact .inr ⟨x :: before, z, after, rfl, List.forall_mem_cons.2 ⟨hmis, hbefore⟩, hdecides⟩
    · exact .inr ⟨[], x, xs, rfl, List.forall_mem_nil _, .inr ⟨e, he, hfatal, by rw [he, found, if_pos hfatal]⟩⟩

theorem found_map_of_not_fails (h : ∀ x ∈ xs, ¬ Fails (f x)) :
    (∃ x ∈ xs, ∃ y, f x = .ok y) ∧ found (xs.map f) = .ok true ∨
      (∀ x ∈ xs, Mismatches (f x)) ∧ found (xs.map f) = .ok false := by
  obtain hnone | ⟨before, x, after, rfl, -, ⟨hpass, hfound⟩ | ⟨e, he, hfatal, -⟩⟩ := found_map_cases f xs
  · exact .inr hnone
  · exact .inl ⟨⟨x, by simp, hpass⟩, hfound⟩
  · exact absurd ⟨e, he, hfatal⟩ (h x (by simp))

/-- What a search makes of the results does not matter to it. -/
theorem found_map_map (g : α → β → γ) (f : α → Except Error β) (xs : List α) :
    found (xs.map fun x => g x <$> f x) = found (xs.map f) := by
  induction xs with
  | nil => rfl
  | cons x xs ih =>
    rw [List.map_cons, List.map_cons]
    cases f x with
    | ok y => rfl
    | error e => exact congrArg (fun r => if e.isFatal then .error e else r) ih

/-- A walk keeps something, whatever the order is, just where an item passes. -/
theorem keep_map_ne_nil_iff (hperm : ys.Perm xs) (h : ∀ x ∈ xs, ¬ Fails (f x)) :
    (∃ kept, kept ≠ [] ∧ keep (ys.map f) = .ok kept) ↔ ∃ x ∈ xs, ∃ y, f x = .ok y := by
  rw [keep_map_of_not_fails fun y hy => h y (hperm.mem_iff.1 hy)]
  constructor
  · rintro ⟨kept, hne, hkept⟩
    cases hkept
    obtain ⟨z, hz⟩ := List.exists_mem_of_ne_nil _ hne
    obtain ⟨x, hx, hxz⟩ := List.mem_filterMap.1 hz
    refine ⟨x, hperm.mem_iff.1 hx, ?_⟩
    cases hfx : f x with
    | ok y => exact ⟨y, rfl⟩
    | error e => rw [hfx] at hxz; cases hxz
  · rintro ⟨x, hx, y, hy⟩
    have hkept : y ∈ ys.filterMap fun x => (f x).toOption :=
      List.mem_filterMap.2 ⟨x, hperm.mem_iff.2 hx, by rw [hy]; rfl⟩
    exact ⟨_, List.ne_nil_of_mem hkept, rfl⟩

end Results

/-! ## Tests for some item and some entry -/

namespace Value

/-- What a test gives that passes a value unchanged if something was found. -/
def passIf (v : Value) (found : Except Error Bool) : Except Error Value :=
  found >>= fun passed => if passed then .ok v else .error .noMatch

theorem passIf_dual {α β : Type} {f : α → Except Error β} {xs ys : List α} (hperm : ys.Perm xs)
    (h : ∀ x ∈ xs, ¬ Fails (f x)) {build : List β → Value} (hbuild : build.Injective) (v : Value) :
    (v.passIf (Results.found (xs.map f)) = .ok v ↔
      ∃ kept, kept ≠ [] ∧ build <$> Results.keep (ys.map f) = .ok (build kept)) ∧
    (v.passIf (Results.found (xs.map f)) ≠ .ok v → v.passIf (Results.found (xs.map f)) = .error .noMatch) := by
  have hkept : (∃ kept, kept ≠ [] ∧ build <$> Results.keep (ys.map f) = .ok (build kept)) ↔
      ∃ x ∈ xs, ∃ y, f x = .ok y := by
    rw [← Results.keep_map_ne_nil_iff hperm h]
    cases Results.keep (ys.map f) with
    | ok kept => simp [hbuild.eq_iff]
    | error e => simp
  rw [hkept]
  obtain ⟨hpass, hfound⟩ | ⟨hall, hfound⟩ := Results.found_map_of_not_fails h
  · rw [hfound]
    exact ⟨iff_of_true rfl hpass, fun hne => absurd rfl hne⟩
  · rw [hfound]
    refine ⟨iff_of_false (fun hok => by cases hok) ?_, fun _ => rfl⟩
    rintro ⟨x, hx, y, hy⟩
    obtain ⟨e, he, -⟩ := hall x hx
    rw [hy] at he
    cases he

variable (root : Value) (r : Text)

theorem answer_filter_someItem (items : List Value) :
    ((list items).filterWithRoot root (['[', 'E', ']'] ++ r)).answer =
      (list items).passIf (Results.found (items.map fun x => (x.filterWithRoot root r).answer)) := by
  rw [filterWithRoot, Filter.parse_eq]
  exact Filter.answer_someItem Filter.rootIfNeeded (Filter.parse r) root items

theorem answer_filter_someField (entries : Entries Value) :
    ((map entries).filterWithRoot root (['.', '(', 'E', ')'] ++ r)).answer =
      (map entries).passIf (Results.found (entries.map fun e => (e.2.filterWithRoot root r).answer)) := by
  rw [filterWithRoot, Filter.parse_eq]
  exact Filter.answer_someField Filter.rootIfNeeded (Filter.parse r) root entries

/-- Existence and exclusion are dual: where nothing fails by an error of the directive, a test for some item, or
entry, passes just if the step into all of them keeps something. In a list the first item that is not rejected by an
error of the data decides the test. -/
theorem existence_dual_to_exclusion (root : Value) (r : Text) {cache cache' : PatternCache} (hcache : cache.Sound)
    (hcache' : cache'.Sound) {caches : Value → PatternCache} (hcaches : ∀ x, (caches x).Sound) :
    let out (x : Value) : Except Error Value := ((x.filterWithRoot root r).run (caches x)).1
    let someItem (xs : List Value) : Except Error Value :=
      (((list xs).filterWithRoot root (['[', 'E', ']'] ++ r)).run cache).1
    let everyItem (xs : List Value) : Except Error Value :=
      (((list xs).filterWithRoot root (['[', ']'] ++ r)).run cache').1
    let someField (entries : Entries Value) : Except Error Value :=
      (((map entries).filterWithRoot root (['.', '(', 'E', ')'] ++ r)).run cache).1
    let everyField (entries : Entries Value) : Except Error Value :=
      (((map entries).filterWithRoot root (['.', '(', ')'] ++ r)).run cache').1
    (∀ xs, (∀ x ∈ xs, ¬ Fails (out x)) →
      (someItem xs = .ok (list xs) ↔ ∃ kept, kept ≠ [] ∧ everyItem xs = .ok (list kept)) ∧
      (someItem xs ≠ .ok (list xs) → someItem xs = .error .noMatch)) ∧
    (∀ entries visited : Entries Value, visited.Perm entries → (∀ entry ∈ entries, ¬ Fails (out entry.2)) →
      (someField entries = .ok (map entries) ↔ ∃ kept, kept ≠ [] ∧ everyField visited = .ok (map kept)) ∧
      (someField entries ≠ .ok (map entries) → someField entries = .error .noMatch)) ∧
    ∀ xs, (∀ x ∈ xs, Mismatches (out x)) ∧ someItem xs = .error .noMatch ∨
      ∃ before x after, xs = before ++ x :: after ∧ (∀ y ∈ before, Mismatches (out y)) ∧
        ((∃ y, out x = .ok y) ∧ someItem xs = .ok (list xs) ∨
          ∃ e, out x = .error e ∧ e.isFatal = true ∧ someItem xs = .error e) := by
  intro out someItem everyItem someField everyField
  have fresh (v : Value) (d : Text) {cache : PatternCache} (hcache : cache.Sound) :
      ((v.filterWithRoot root d).run cache).1 = (v.filterWithRoot root d).answer :=
    Run.run_eq_answer (steady_filterWithRoot v root d) hcache
  have hout : (fun x => (x.filterWithRoot root r).answer) = out :=
    funext fun x => (fresh x r (hcaches x)).symm
  have hsomeItem (xs : List Value) : someItem xs = (list xs).passIf (Results.found (xs.map out)) := by
    rw [← hout, ← answer_filter_someItem]
    exact fresh _ _ hcache
  have heveryItem (xs : List Value) : everyItem xs = list <$> Results.keep (xs.map out) := by
    rw [← hout, ← answer_filter_items]
    exact fresh _ _ hcache'
  have hsomeField (entries : Entries Value) :
      someField entries = (map entries).passIf (Results.found (entries.map fun e => out e.2)) := by
    rw [← hout, ← answer_filter_someField]
    exact fresh _ _ hcache
  have heveryField (entries : Entries Value) :
      everyField entries = map <$> Results.keepEntries (entries.map fun e => (e.1, out e.2)) := by
    rw [← hout, ← answer_filter_entries]
    exact fresh _ _ hcache'
  refine ⟨fun xs h => ?_, fun entries visited hperm h => ?_, fun xs => ?_⟩
  · rw [hsomeItem, heveryItem]
    exact passIf_dual (.refl xs) h (fun _ _ => list.inj) _
  · rw [hsomeField, heveryField, Results.keepEntries, List.map_map,
      ← Results.found_map_map fun (e : String × Value) (y : Value) => (e.1, y)]
    refine passIf_dual hperm (fun e he => ?_) (fun _ _ => map.inj) _
    exact mt (Results.fails_entry (o := (e.1, out e.2))).1 (h e he)
  · rw [hsomeItem]
    obtain ⟨hall, hfound⟩ | ⟨before, x, after, rfl, hbefore, ⟨hpass, hfound⟩ | ⟨e, he, hfatal, hfound⟩⟩ :=
      Results.found_map_cases out xs
    · exact .inl ⟨hall, by rw [hfound]; rfl⟩
    · exact .inr ⟨before, x, after, rfl, hbefore, .inl ⟨hpass, by rw [hfound]; rfl⟩⟩
    · exact .inr ⟨before, x, after, rfl, hbefore, .inr ⟨e, he, hfatal, by rw [hfound]; rfl⟩⟩

/-- A map is cut in the copy that is probed, and behind an item that passes stands one that would fail. Exclusion
visits the entries from the other end and has compiled the pattern before. -/
theorem existence_dual_to_exclusion_pruned :
    let r : Text := "[0]\x7b.a=/x/,@a\x7d".toList
    let rejected : Value := list [map [("a", .string "y")]]
    let passing : Value := list [map [("a", .string "xy"), ("b", .null)]]
    let failing : Value := list [.string "x"]
    let entries : Entries Value := [("k", rejected), ("l", passing)]
    let caches (_ : Value) : PatternCache := .empty
    let out (x : Value) : Except Error Value := ((x.filterWithRoot .null r).run (caches x)).1
    let compiled : PatternCache := ((passing.filterWithRoot .null r).run .empty).2
    let someItem (xs : List Value) : Except Error Value :=
      (((list xs).filterWithRoot .null (['[', 'E', ']'] ++ r)).run .empty).1
    let everyItem (xs : List Value) : Except Error Value :=
      (((list xs).filterWithRoot .null (['[', ']'] ++ r)).run compiled).1
    let someField (entries : Entries Value) : Except Error Value :=
      (((map entries).filterWithRoot .null (['.', '(', 'E', ')'] ++ r)).run .empty).1
    let everyField (entries : Entries Value) : Except Error Value :=
      (((map entries).filterWithRoot .null (['.', '(', ')'] ++ r)).run compiled).1
    compiled.contains "x" = true ∧ PatternCache.empty.Sound ∧ compiled.Sound ∧ (∀ x, (caches x).Sound) ∧
      (∀ x ∈ [rejected, passing], ¬ Fails (out x)) ∧
      everyItem [rejected, passing] = .ok (list [list [map [("a", .string "xy")]]]) ∧
      someItem [rejected, passing] = .ok (list [rejected, passing]) ∧
      entries.reverse.Perm entries ∧ (∀ entry ∈ entries, ¬ Fails (out entry.2)) ∧
      everyField entries.reverse = .ok (map [("l", list [map [("a", .string "xy")]])]) ∧
      someField entries = .ok (map entries) ∧
      Fails (out failing) ∧ someItem [passing, failing] = .ok (list [passing, failing]) := by
  intro r rejected passing failing entries caches out compiled someItem everyItem someField everyField
  have hcompiled : compiled.contains "x" = true := by decide +kernel
  have hsound : compiled.Sound := (steady_filterWithRoot passing .null r).sound PatternCache.sound_empty
  have hcaches (x : Value) : (caches x).Sound := PatternCache.sound_empty
  have hrejected : out rejected = .error .noMatch := by decide +kernel
  have hpassing : out passing = .ok (list [map [("a", .string "xy")]]) := by decide +kernel
  have hfailing : Fails (out failing) := ⟨.illegal (.cannotCut .string), by decide +kernel, rfl⟩
  have hnot : ¬ Fails (out rejected) := hrejected ▸ Mismatches.not_fails ⟨_, rfl, rfl⟩
  have hnot' : ¬ Fails (out passing) := hpassing ▸ not_fails_ok
  have hmismatch : ¬ Mismatches (out passing) := hpassing ▸ not_mismatches_ok
  have hitems : ∀ x ∈ [rejected, passing], ¬ Fails (out x) := by simp [hnot, hnot']
  have hentries : ∀ entry ∈ entries, ¬ Fails (out entry.2) := by simp [entries, hnot, hnot']
  have hkept : everyItem [rejected, passing] = .ok (list [list [map [("a", .string "xy")]]]) := by decide +kernel
  have hkept' : everyField entries.reverse = .ok (map [("l", list [map [("a", .string "xy")]])]) := by decide +kernel
  obtain ⟨hdual, hdual', hdecides⟩ := existence_dual_to_exclusion .null r PatternCache.sound_empty hsound hcaches
  refine ⟨hcompiled, PatternCache.sound_empty, hsound, hcaches, hitems, hkept,
    (hdual _ hitems).1.2 ⟨_, List.cons_ne_nil _ _, hkept⟩, List.reverse_perm entries, hentries, hkept',
    (hdual' entries _ (List.reverse_perm entries) hentries).1.2 ⟨_, List.cons_ne_nil _ _, hkept'⟩, hfailing, ?_⟩
  obtain ⟨hall, -⟩ | ⟨before, x, after, hsplit, hbefore, hdecided⟩ := hdecides [passing, failing]
  · exact absurd (hall passing List.mem_cons_self) hmismatch
  · cases before with
    | nil =>
      obtain ⟨rfl, -⟩ := List.cons.inj hsplit
      obtain ⟨-, hpassed⟩ | ⟨e, he, -⟩ := hdecided
      · exact hpassed
      · cases hpassing.symm.trans he
    | cons y before =>
      obtain ⟨rfl, -⟩ := List.cons.inj hsplit
      exact absurd (hbefore _ List.mem_cons_self) hmismatch

end Value

end JsonSieve
