/-
Steps into all items and all entries transform one part after the other, none seeing what becomes of another.
So what comes of the whole is what comes of the parts, in their places and under their keys: a part that the rest
of the directive does not fit is kept, and only an error of the directive ends the walk, that of the first item at
which there is one, or that of one of the entries.
-/
import JsonSieve.Proofs.Transform.Reordering

namespace JsonSieve

namespace Transform

/-! ## Walks over items and entries -/

variable {change : Value → Attempt} {xs : List Value}

theorem changeItems_of_not_fails (h : ∀ x ∈ xs, ¬ Fails (change x).result) :
    changeItems change xs = (xs.map fun x => (change x).after, none) := by
  rw [changeItems_eq_settle, settle_of_not_fails (List.forall_mem_map.2 h), List.map_map]
  rfl

theorem changeItems_of_fails (h : ∃ x ∈ xs, Fails (change x).result) :
    ∃ before x after e, xs = before ++ x :: after ∧ (∀ y ∈ before, ¬ Fails (change y).result) ∧
      (change x).result = .error e ∧ e.isFatal = true ∧ (changeItems change xs).2 = some e := by
  have hattempt : ∃ o ∈ xs.map fun x => (x, change x), Fails o.2.result := by
    obtain ⟨x, hx, hfails⟩ := h
    exact ⟨_, List.mem_map_of_mem hx, hfails⟩
  obtain ⟨before, o, after, e, hsplit, hbefore, hresult, hfatal, hsettle⟩ := settle_of_fails hattempt
  obtain ⟨front, rest, rfl, rfl, hrest⟩ := List.map_eq_append_iff.1 hsplit
  obtain ⟨y, back, rfl, rfl, -⟩ := List.map_eq_cons_iff.1 hrest
  rw [← changeItems_eq_settle] at hsettle
  exact ⟨front, y, back, e, rfl, fun z hz => hbefore _ (List.mem_map_of_mem hz), hresult, hfatal, hsettle⟩

theorem changeEntries_of_not_fails {es : Entries Value} (h : ∀ e ∈ es, ¬ Fails (change e.2).result) :
    changeEntries change es = (es.map fun e => (e.1, (change e.2).after), none) := by
  rw [changeEntries_eq, changeItems_of_not_fails (List.forall_mem_map.2 h), List.map_map, Entries.keys, List.zip_map']
  rfl

theorem changeEntries_of_fails {es : Entries Value} (h : ∃ e ∈ es, Fails (change e.2).result) :
    ∃ e ∈ es, ∃ err, (change e.2).result = .error err ∧ err.isFatal = true ∧
      (changeEntries change es).2 = some err := by
  have hcontent : ∃ x ∈ es.map (·.2), Fails (change x).result := by
    obtain ⟨e, he, hfails⟩ := h
    exact ⟨_, List.mem_map_of_mem he, hfails⟩
  obtain ⟨before, x, after, err, hsplit, -, hresult, hfatal, hwalk⟩ := changeItems_of_fails hcontent
  have hx : x ∈ es.map (·.2) := by simp [hsplit]
  obtain ⟨e', he', rfl⟩ := List.mem_map.1 hx
  exact ⟨e', he', err, hresult, hfatal, by rw [changeEntries_eq]; exact hwalk⟩

end Transform

/-! ## Steps into all items and all entries -/

namespace Value

variable {grants : Reservation}

/-- A transform that does not fail leaves what it gives, or the value itself if it does not fit. -/
theorem after_transform_of_not_fails {x : Value} {r : Text} (h : ¬ Fails (x.transform grants r).result) :
    (x.transform grants r).after = (x.transform grants r).result.toOption.getD x := by
  rcases result_cases (x.transform grants r).result with ⟨y, hy⟩ | ⟨e, he, hdata⟩ | hfails
  · rw [hy]
    exact (Attempt.result_eq_ok.1 hy).2
  · rw [he]
    exact Transform.after_eq_of_mismatch (Transform.parse r) x e (Attempt.result_eq_error.1 he) hdata
  · exact absurd hfails h

theorem transform_everyItem (grants : Reservation) (xs : List Value) (r : Text) :
    (list xs).transform grants (['[', ']'] ++ r) =
      let (ys, error) := Transform.changeItems (·.transform grants r) xs
      ⟨list ys, error⟩ := by
  rw [transform, Transform.parse_eq]
  rfl

theorem transform_everyField (grants : Reservation) (entries : Entries Value) (r : Text) :
    (map entries).transform grants (['.', '(', ')'] ++ r) =
      ⟨map (Transform.changeEntries (·.transform grants r) entries).1,
        (Transform.changeEntries (·.transform grants r) entries).2⟩ := by
  rw [transform, Transform.parse_eq]
  rfl

/-- A step into all items, or entries, gives as many, each in its place with what the rest of the directive gives of
it, or as it was where the rest does not fit. An error of the directive on one of them is its error, in a list that on
the first such item. -/
theorem transform_element_wise (grants : Reservation) (r : Text) :
    let out (x : Value) : Except Error Value := (x.transform grants r).result
    let changed (x : Value) : Value := (out x).toOption.getD x
    let items (xs : List Value) : Except Error Value := ((list xs).transform grants (['[', ']'] ++ r)).result
    let fields (entries : Entries Value) : Except Error Value :=
      ((map entries).transform grants (['.', '(', ')'] ++ r)).result
    (∀ xs, (∀ x ∈ xs, ¬ Fails (out x)) → items xs = .ok (list (xs.map changed))) ∧
    (∀ xs, (∃ x ∈ xs, Fails (out x)) → ∃ before x after e, xs = before ++ x :: after ∧
      (∀ y ∈ before, ¬ Fails (out y)) ∧ out x = .error e ∧ e.isFatal = true ∧ items xs = .error e) ∧
    (∀ entries, (∀ entry ∈ entries, ¬ Fails (out entry.2)) →
      ∃ after, fields entries = .ok (map after) ∧ Entries.keys after = Entries.keys entries ∧
        ∀ key, Entries.get? key after = (Entries.get? key entries).map changed) ∧
    ∀ entries, (∃ entry ∈ entries, Fails (out entry.2)) → ∃ entry ∈ entries, ∃ e,
      out entry.2 = .error e ∧ e.isFatal = true ∧ fields entries = .error e := by
  intro out changed items fields
  refine ⟨fun xs h => ?_, fun xs h => ?_, fun entries h => ?_, fun entries h => ?_⟩
  · have hwalk : Transform.changeItems (·.transform grants r) xs =
        (xs.map fun x => (x.transform grants r).after, none) :=
      Transform.changeItems_of_not_fails h
    have hchanged : (xs.map fun x => (x.transform grants r).after) = xs.map changed :=
      List.map_congr_left fun x hx => after_transform_of_not_fails (h x hx)
    refine Attempt.result_eq_ok.2 ?_
    rw [transform_everyItem, hwalk]
    exact ⟨rfl, congrArg list hchanged⟩
  · obtain ⟨before, x, after, e, rfl, hbefore, hx, hfatal, hwalk⟩ := Transform.changeItems_of_fails h
    refine ⟨before, x, after, e, rfl, hbefore, hx, hfatal, Attempt.result_eq_error.2 ?_⟩
    rw [transform_everyItem]
    exact hwalk
  · have hwalk : Transform.changeEntries (·.transform grants r) entries =
        (entries.map fun e => (e.1, (e.2.transform grants r).after), none) :=
      Transform.changeEntries_of_not_fails h
    have hchanged : (entries.map fun e => (e.1, (e.2.transform grants r).after)) =
        entries.map fun e => (e.1, changed e.2) :=
      List.map_congr_left fun e he => congrArg (e.1, ·) (after_transform_of_not_fails (h e he))
    refine ⟨entries.map fun e => (e.1, changed e.2), Attempt.result_eq_ok.2 ?_, Entries.keys_map changed entries,
      fun key => Entries.get?_map changed key entries⟩
    rw [transform_everyField, hwalk]
    exact ⟨rfl, congrArg map hchanged⟩
  · obtain ⟨e, he, err, hresult, hfatal, hwalk⟩ := Transform.changeEntries_of_fails h
    refine ⟨e, he, err, hresult, hfatal, Attempt.result_eq_error.2 ?_⟩
    rw [transform_everyField]
    exact hwalk

/-- An item that grows, one that lacks the source and one that is no map; and an item that cannot grow so far. -/
theorem transform_element_wise_kept :
    let r : Text := "{.c[1]=.a}".toList
    let growing : Value := map [("a", .int 1)]
    let lacking : Value := map [("b", .int 2)]
    let large : Text := "{[2305843009213693952]=[0]}".toList
    let out (r : Text) (x : Value) : Except Error Value := (x.transform .standard r).result
    let items (r : Text) (xs : List Value) : Except Error Value :=
      ((list xs).transform .standard (['[', ']'] ++ r)).result
    let entries : Entries Value := [("k", lacking), ("l", growing)]
    (∀ x ∈ [growing, lacking, .null], ¬ Fails (out r x)) ∧
      items r [growing, lacking, .null] =
        .ok (list [map [("a", .int 1), ("c", list [.null, .int 1])], lacking, .null]) ∧
      (∀ entry ∈ entries, ¬ Fails (out r entry.2)) ∧
      (∃ after, ((map entries).transform .standard (['.', '(', ')'] ++ r)).result = .ok (map after) ∧
        Entries.get? "k" after = some lacking) ∧
      (∃ x ∈ [list [], list [.null], .null], Fails (out large x)) ∧
      ∃ before x after e, [list [], list [.null], .null] = before ++ x :: after ∧
        (∀ y ∈ before, ¬ Fails (out large y)) ∧ out large x = .error e ∧ e.isFatal = true ∧
        items large [list [], list [.null], .null] = .error e := by
  intro r growing lacking large out items entries
  have hgrowing : out r growing = .ok (map [("a", .int 1), ("c", list [.null, .int 1])]) := by decide +kernel
  have hlacking : out r lacking = .error .notFound := by decide +kernel
  have hnull : out r .null = .error .notAStructure := by decide +kernel
  have hlarge : Fails (out large (list [.null])) :=
    ⟨.illegal (.cannotGrow 2305843009213693952), by decide +kernel, rfl⟩
  have hgrows : ¬ Fails (out r growing) := hgrowing ▸ not_fails_ok
  have hlacks : ¬ Fails (out r lacking) := hlacking ▸ Mismatches.not_fails ⟨_, rfl, rfl⟩
  have hmismatch : ¬ Fails (out r .null) := hnull ▸ Mismatches.not_fails ⟨_, rfl, rfl⟩
  have hitems : ∀ x ∈ [growing, lacking, .null], ¬ Fails (out r x) := by simp [hgrows, hlacks, hmismatch]
  have hentries : ∀ entry ∈ entries, ¬ Fails (out r entry.2) := by simp [entries, hgrows, hlacks]
  have hsome : ∃ x ∈ [list [], list [.null], .null], Fails (out large x) := ⟨list [.null], by simp, hlarge⟩
  obtain ⟨hall, -, hfields, -⟩ := transform_element_wise .standard r
  obtain ⟨after, hafter, -, hget⟩ := hfields entries hentries
  refine ⟨hitems, (hall _ hitems).trans ?_, hentries, ⟨after, hafter, ?_⟩, hsome,
    (transform_element_wise .standard large).2.1 _ hsome⟩
  · have hchanged : [growing, lacking, .null].map (fun x => (out r x).toOption.getD x) =
        [map [("a", .int 1), ("c", list [.null, .int 1])], lacking, .null] := by
      simp only [List.map_cons, hgrowing, hlacking, hnull, List.map_nil]
      rfl
    exact congrArg (fun xs => Except.ok (list xs)) hchanged
  · have hchanged : (out r lacking).toOption.getD lacking = lacking := by rw [hlacking]; rfl
    exact (hget "k").trans (congrArg some hchanged)

end Value

end JsonSieve
