/-
Exclusion. A step into all items or all entries keeps what the rest of the directive makes of those that pass,
in their order and under their keys. Only an error of the directive ends it: that of the first item at which
there is one, or that of one of the entries. What does not fit an item takes away the item and is no reason to
reject the whole.
-/
import JsonSieve.Proofs.Filter.Reordering

namespace JsonSieve

/-! ## Walks over items and entries -/

namespace Results

variable {α β : Type} {f : α → Except Error β} {xs : List α}

theorem keep_map_of_not_fails (h : ∀ x ∈ xs, ¬ Fails (f x)) :
    keep (xs.map f) = .ok (xs.filterMap fun x => (f x).toOption) := by
  rw [keep_of_not_fails (List.forall_mem_map.2 h), List.filterMap_map]
  rfl

/-- The error of a walk is that of the first item at which its test fails. -/
theorem keep_map_of_fails (h : ∃ x ∈ xs, Fails (f x)) :
    ∃ before x after e, xs = before ++ x :: after ∧ (∀ y ∈ before, ¬ Fails (f y)) ∧ f x = .error e ∧
      e.isFatal = true ∧ keep (xs.map f) = .error e := by
  rcases keep_cases (xs.map f) with ⟨hall, -⟩ | ⟨before, e, after, hsplit, hbefore, he, hkeep⟩
  · obtain ⟨x, hx, hfails⟩ := h
    exact absurd hfails (hall _ (List.mem_map_of_mem hx))
  · obtain ⟨front, rest, rfl, rfl, hrest⟩ := List.map_eq_append_iff.1 hsplit
    obtain ⟨x, back, rfl, hx, -⟩ := List.map_eq_cons_iff.1 hrest
    exact ⟨front, x, back, e, rfl, fun y hy => hbefore _ (List.mem_map_of_mem hy), hx, he, hkeep⟩

theorem keepEntries_map_of_not_fails {f : α → Except Error β} {es : Entries α} (hkeys : (Entries.keys es).Nodup)
    (h : ∀ e ∈ es, ¬ Fails (f e.2)) :
    ∃ kept, keepEntries (es.map fun e => (e.1, f e.2)) = .ok kept ∧ (Entries.keys kept).Nodup ∧
      ∀ key, Entries.get? key kept = (Entries.get? key es).bind fun x => (f x).toOption := by
  have hkeys' : (Entries.keys (es.map fun e => (e.1, f e.2))).Nodup := by
    rw [Entries.keys_map]
    exact hkeys
  refine ⟨_, keepEntries_of_not_fails (List.forall_mem_map.2 h),
    hkeys'.sublist (Entries.keys_pick_sublist _ _), fun key => ?_⟩
  rw [Entries.get?_pick hkeys', Entries.get?_map]
  cases Entries.get? key es <;> rfl

theorem keepEntries_map_of_fails {f : α → Except Error β} {es : Entries α} (h : ∃ e ∈ es, Fails (f e.2)) :
    ∃ e ∈ es, ∃ err, f e.2 = .error err ∧ err.isFatal = true ∧
      keepEntries (es.map fun e => (e.1, f e.2)) = .error err := by
  obtain ⟨e, he, hfails⟩ := h
  obtain ⟨before, e', after, err, rfl, -, herr, hfatal, hkeep⟩ :=
    keep_map_of_fails (f := fun e : String × α => (e.1, ·) <$> f e.2)
      ⟨e, he, (fails_entry (o := (e.1, f e.2))).2 hfails⟩
  refine ⟨e', by simp, err, ?_, hfatal, ?_⟩
  · cases hf : f e'.2 with
    | ok y => rw [hf] at herr; cases herr
    | error err' => rw [hf] at herr; cases herr; rfl
  · rw [keepEntries, List.map_map]
    exact hkeep

/-- A walk does not end with an error of the data. -/
theorem not_mismatches_keep {γ : Type} (g : List α → γ) (rs : List (Except Error α)) :
    ¬ Mismatches (g <$> keep rs) := by
  rcases keep_cases rs with ⟨-, hkeep⟩ | ⟨-, e, -, -, -, he, hkeep⟩
  · rw [hkeep]
    exact not_mismatches_ok
  · rw [hkeep]
    exact fun hmis => hmis.not_fails ⟨e, rfl, he⟩

end Results

/-! ## Steps into all items and all entries -/

namespace Value

variable (root : Value) (r : Text)

theorem answer_filter_items (items : List Value) :
    ((list items).filterWithRoot root (['[', ']'] ++ r)).answer =
      list <$> Results.keep (items.map fun x => (x.filterWithRoot root r).answer) := by
  rw [filterWithRoot, Filter.parse_eq]
  exact Filter.answer_everyItem Filter.rootIfNeeded (Filter.parse r) root items

theorem answer_filter_entries (entries : Entries Value) :
    ((map entries).filterWithRoot root (['.', '(', ')'] ++ r)).answer =
      map <$> Results.keepEntries (entries.map fun e => (e.1, (e.2.filterWithRoot root r).answer)) := by
  rw [filterWithRoot, Filter.parse_eq, Results.keepEntries, List.map_map]
  exact Filter.answer_everyField Filter.rootIfNeeded (Filter.parse r) root entries

/-- A step into all items, or entries, keeps what the rest of the directive makes of those that pass, and never
rejects the whole by an error of the data. An error of the directive on one of them is its error, in a list that on
the first such item. -/
theorem exclusion_keeps_what_passes (root : Value) (r : Text) {cache : PatternCache} (hcache : cache.Sound)
    {caches : Value → PatternCache} (hcaches : ∀ x, (caches x).Sound) :
    let out (x : Value) : Except Error Value := ((x.filterWithRoot root r).run (caches x)).1
    let items (xs : List Value) : Except Error Value :=
      (((list xs).filterWithRoot root (['[', ']'] ++ r)).run cache).1
    let fields (entries : Entries Value) : Except Error Value :=
      (((map entries).filterWithRoot root (['.', '(', ')'] ++ r)).run cache).1
    (∀ xs, (∀ x ∈ xs, ¬ Fails (out x)) → items xs = .ok (list (xs.filterMap fun x => (out x).toOption))) ∧
    (∀ xs, (∃ x ∈ xs, Fails (out x)) → ∃ before x after e, xs = before ++ x :: after ∧
      (∀ y ∈ before, ¬ Fails (out y)) ∧ out x = .error e ∧ e.isFatal = true ∧ items xs = .error e) ∧
    (∀ entries, (Entries.keys entries).Nodup → (∀ entry ∈ entries, ¬ Fails (out entry.2)) →
      ∃ kept, fields entries = .ok (map kept) ∧ (Entries.keys kept).Nodup ∧
        ∀ key, Entries.get? key kept = (Entries.get? key entries).bind fun x => (out x).toOption) ∧
    (∀ entries, (∃ entry ∈ entries, Fails (out entry.2)) → ∃ entry ∈ entries, ∃ e,
      out entry.2 = .error e ∧ e.isFatal = true ∧ fields entries = .error e) ∧
    (∀ xs, ¬ Mismatches (items xs)) ∧ ∀ entries, ¬ Mismatches (fields entries) := by
  intro out items fields
  have hout (x : Value) : (x.filterWithRoot root r).answer = out x :=
    (steady_filterWithRoot x root r).answer PatternCache.sound_empty (hcaches x)
  have hitems (xs : List Value) : items xs = list <$> Results.keep (xs.map out) := by
    rw [← funext hout, ← answer_filter_items]
    exact (steady_filterWithRoot _ root _).answer hcache PatternCache.sound_empty
  have hfields (entries : Entries Value) :
      fields entries = map <$> Results.keepEntries (entries.map fun e => (e.1, out e.2)) := by
    rw [← funext hout, ← answer_filter_entries]
    exact (steady_filterWithRoot _ root _).answer hcache PatternCache.sound_empty
  refine ⟨fun xs hall => ?_, fun xs hfails => ?_, fun entries hkeys hall => ?_, fun entries hfails => ?_,
    fun xs hmis => ?_, fun entries hmis => ?_⟩
  · rw [hitems, Results.keep_map_of_not_fails hall]
    rfl
  · obtain ⟨before, x, after, e, rfl, hbefore, hx, he, hkeep⟩ := Results.keep_map_of_fails hfails
    exact ⟨before, x, after, e, rfl, hbefore, hx, he, by rw [hitems, hkeep]; rfl⟩
  · obtain ⟨kept, hkept, hnodup, hget⟩ := Results.keepEntries_map_of_not_fails hkeys hall
    exact ⟨kept, by rw [hfields, hkept]; rfl, hnodup, hget⟩
  · obtain ⟨entry, hentry, e, hout, he, hkeep⟩ := Results.keepEntries_map_of_fails hfails
    exact ⟨entry, hentry, e, hout, he, by rw [hfields, hkeep]; rfl⟩
  · rw [hitems] at hmis
    exact Results.not_mismatches_keep list _ hmis
  · rw [hfields] at hmis
    exact Results.not_mismatches_keep map _ hmis

/-- A part that is pruned, one that is taken away, and a pattern that does not compile where a string is come
upon. -/
theorem exclusion_keeps_what_passes_pruned :
    let r : Text := "[]=/(/".toList
    let caches (_ : Value) : PatternCache := .empty
    let out (x : Value) : Except Error Value := ((x.filterWithRoot .null r).run (caches x)).1
    let items (xs : List Value) : Except Error Value :=
      (((list xs).filterWithRoot .null (['[', ']'] ++ r)).run .empty).1
    let fields (entries : Entries Value) : Except Error Value :=
      (((map entries).filterWithRoot .null (['.', '(', ')'] ++ r)).run .empty).1
    let pruned : Value := list [.int 1]
    let failing : Value := list [.string "x"]
    let entries : Entries Value := [("a", pruned), ("b", .null)]
    PatternCache.empty.Sound ∧ (∀ x, (caches x).Sound) ∧
      (∀ x ∈ [pruned, .null], ¬ Fails (out x)) ∧ items [pruned, .null] = .ok (list [list []]) ∧
      (∃ x ∈ [pruned, failing, .null], Fails (out x)) ∧
      (∃ before x after e, [pruned, failing, .null] = before ++ x :: after ∧
        (∀ y ∈ before, ¬ Fails (out y)) ∧ out x = .error e ∧ e.isFatal = true ∧
        items [pruned, failing, .null] = .error e) ∧
      (Entries.keys entries).Nodup ∧ (∀ entry ∈ entries, ¬ Fails (out entry.2)) ∧
      (∃ kept, fields entries = .ok (map kept) ∧ (Entries.keys kept).Nodup ∧
        ∀ key, Entries.get? key kept = (Entries.get? key entries).bind fun x => (out x).toOption) := by
  intro r caches out items fields pruned failing entries
  have hcaches (x : Value) : (caches x).Sound := PatternCache.sound_empty
  have hpruned : out pruned = .ok (list []) := by decide +kernel
  have hnull : out .null = .error .notAList := by decide +kernel
  have hfailing : Fails (out failing) := by
    refine ⟨.invalidPattern "(" .malformed, ?_, rfl⟩
    decide +kernel
  have hpasses : ¬ Fails (out pruned) := hpruned ▸ not_fails_ok
  have hmismatch : ¬ Fails (out .null) := hnull ▸ Mismatches.not_fails ⟨_, rfl, rfl⟩
  have hall : ∀ x ∈ [pruned, .null], ¬ Fails (out x) := by simp [hpasses, hmismatch]
  have hentries : ∀ entry ∈ entries, ¬ Fails (out entry.2) := by simp [entries, hpasses, hmismatch]
  have hsome : ∃ x ∈ [pruned, failing, .null], Fails (out x) := ⟨failing, by simp, hfailing⟩
  obtain ⟨hitems, hfirst, hfields, -⟩ :=
    exclusion_keeps_what_passes .null r PatternCache.sound_empty hcaches
  refine ⟨PatternCache.sound_empty, hcaches, hall, (hitems _ hall).trans ?_, hsome, hfirst _ hsome, by decide,
    hentries, hfields entries (by decide) hentries⟩
  have hkept : [pruned, .null].filterMap (fun x => (out x).toOption) = [list []] := by
    simp only [List.filterMap_cons, hpruned, hnull, Except.toOption, List.filterMap_nil]
  exact congrArg (fun xs => Except.ok (list xs)) hkept

end Value

end JsonSieve
