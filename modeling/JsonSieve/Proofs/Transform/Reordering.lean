/-
Transforms on values that differ in the visiting order of entries: both are left as values that differ in
no more, or both attempts fail, by the same error of the data or by errors of the directive. That is shown
for attempts in which every walk over a map has an order of its own (`Transform.Gives`), of which the
attempt of the program is one. A transform looks at every part that it comes to, so the order never decides
whether it comes upon an error of the directive; only what is left behind by such an error may differ, and
nobody sees that.
-/
import JsonSieve.Proofs.Filter.Answer
import JsonSieve.Proofs.Path.Reordering
import JsonSieve.Proofs.Transform.AtPath

namespace JsonSieve

open Value (Alike alike_list alike_map)

/-! ## Attempts -/

theorem Attempt.fatal?_of_not_fails {attempt : Attempt} (h : ¬ Fails attempt.result) :
    attempt.fatal? = none := by
  obtain ⟨after, error⟩ := attempt
  cases error with
  | none => rfl
  | some e =>
    cases he : e.isFatal with
    | false => simp [fatal?, Option.filter_some, he]
    | true => exact absurd ⟨e, rfl, he⟩ h

theorem Attempt.fatal?_of_fails {attempt : Attempt} (h : Fails attempt.result) :
    ∃ e, attempt.fatal? = some e ∧ e.isFatal = true := by
  obtain ⟨e, hresult, he⟩ := h
  refine ⟨e, ?_, he⟩
  rw [fatal?_of_error (result_eq_error.1 hresult), if_pos he]

/-- Both attempts fail by errors of the directive, or both leave values that differ in no more than the order. -/
structure Attempt.Similar (a b : Attempt) : Prop where
  fails : Fails a.result ↔ Fails b.result
  after : ¬ Fails a.result → Alike a.after b.after

/-- What is built around a part after an attempt on it, which passes on errors of the directive only. -/
theorem Attempt.Similar.around {a b : Attempt} (h : a.Similar b) {f g : Value → Value}
    (hfg : Alike a.after b.after → Alike (f a.after) (g b.after)) :
    Agree False Alike (Attempt.mk (f a.after) a.fatal?).result (Attempt.mk (g b.after) b.fatal?).result := by
  -- an error of the data is not passed on, so either attempt counts as done
  by_cases ha : Fails a.result
  · obtain ⟨e, hfatal, he⟩ := fatal?_of_fails ha
    obtain ⟨e', hfatal', he'⟩ := fatal?_of_fails (h.fails.1 ha)
    rw [hfatal, hfatal']
    exact .fails ⟨e, rfl, he⟩ ⟨e', rfl, he'⟩
  · rw [fatal?_of_not_fails ha, fatal?_of_not_fails (mt h.fails.2 ha)]
    exact .ok (hfg (h.after ha))

namespace Transform

/-! ## Rows of attempts -/

/-- What a walk leaves of parts, given the attempt on each: it ends at the first error of the directive, and
the parts after that stay. -/
def settle : List (Value × Attempt) → List Value × Option Error
  | [] => ([], none)
  | (_, attempt) :: rest =>
    match attempt.fatal? with
    | some e => (attempt.after :: rest.map (·.1), some e)
    | none =>
      let (ys, e) := settle rest
      (attempt.after :: ys, e)

/-- Items are changed by the attempts on them. -/
theorem changeItems_eq_settle (change : Value → Attempt) (items : List Value) :
    changeItems change items = settle (items.map fun x => (x, change x)) := by
  induction items with
  | nil => rfl
  | cons x xs ih =>
    have untouched : xs = (xs.map fun x => (x, change x)).map (·.1) := by
      rw [List.map_map]; exact xs.map_id.symm
    rw [changeItems, List.map_cons, settle]
    cases (change x).fatal? with
    | some e => exact congrArg (fun ys => ((change x).after :: ys, some e)) untouched
    | none => simp only [ih]

variable {os ps : List (Value × Attempt)}

theorem settle_of_not_fails (h : ∀ o ∈ os, ¬ Fails o.2.result) : settle os = (os.map (·.2.after), none) := by
  induction os with
  | nil => rfl
  | cons o os ih =>
    obtain ⟨ho, hos⟩ := List.forall_mem_cons.1 h
    simp only [settle, Attempt.fatal?_of_not_fails ho, ih hos, List.map_cons]

/-- The error of a walk is that of the first attempt that fails by an error of the directive. -/
theorem settle_of_fails (h : ∃ o ∈ os, Fails o.2.result) :
    ∃ before o after e, os = before ++ o :: after ∧ (∀ p ∈ before, ¬ Fails p.2.result) ∧
      o.2.result = .error e ∧ e.isFatal = true ∧ (settle os).2 = some e := by
  induction os with
  | nil => obtain ⟨o, ho, -⟩ := h; cases ho
  | cons o os ih =>
    by_cases ho : Fails o.2.result
    · obtain ⟨e, hresult, hfatal⟩ := ho
      have he : o.2.fatal? = some e := by
        rw [Attempt.fatal?_of_error (Attempt.result_eq_error.1 hresult), if_pos hfatal]
      exact ⟨[], o, os, e, rfl, List.forall_mem_nil _, hresult, hfatal, by simp only [settle, he]⟩
    · have hrest : ∃ p ∈ os, Fails p.2.result := by
        obtain ⟨p, hp, hfails⟩ := h
        rcases List.mem_cons.1 hp with rfl | hp
        · exact absurd hfails ho
        · exact ⟨p, hp, hfails⟩
      obtain ⟨before, p, after, e, rfl, hbefore, hresult, hfatal, hsettle⟩ := ih hrest
      refine ⟨o :: before, p, after, e, rfl, List.forall_mem_cons.2 ⟨ho, hbefore⟩, hresult, hfatal, ?_⟩
      simp only [settle, Attempt.fatal?_of_not_fails ho]
      exact hsettle

/-- An error that ends a walk lies in the directive. -/
theorem isFatal_of_settle {e : Error} (h : (settle os).2 = some e) : e.isFatal = true := by
  by_cases hfails : ∃ o ∈ os, Fails o.2.result
  · obtain ⟨-, -, -, e', -, -, -, hfatal, he'⟩ := settle_of_fails hfails
    rw [h] at he'
    cases he'
    exact hfatal
  · push Not at hfails
    rw [settle_of_not_fails hfails] at h
    cases h

/-- What is built from two walks, if an attempt fails in both of them or in none. -/
theorem agree_settle {f g : List Value → Value}
    (hfails : (∃ o ∈ os, Fails o.2.result) ↔ ∃ p ∈ ps, Fails p.2.result)
    (hafter : (∀ o ∈ os, ¬ Fails o.2.result) → Alike (f (os.map (·.2.after))) (g (ps.map (·.2.after)))) :
    Agree False Alike (Attempt.mk (f (settle os).1) (settle os).2).result
      (Attempt.mk (g (settle ps).1) (settle ps).2).result := by
  by_cases hos : ∃ o ∈ os, Fails o.2.result
  · obtain ⟨-, -, -, e, -, -, -, hfatal, he⟩ := settle_of_fails hos
    obtain ⟨-, -, -, e', -, -, -, hfatal', he'⟩ := settle_of_fails (hfails.1 hos)
    rw [he, he']
    exact .fails ⟨e, rfl, hfatal⟩ ⟨e', rfl, hfatal'⟩
  · have hps := mt hfails.2 hos
    push Not at hos hps
    rw [settle_of_not_fails hos, settle_of_not_fails hps]
    exact .ok (hafter hos)

theorem agree_settle_items (h : List.Forall₂ (fun o p => o.2.Similar p.2) os ps) :
    Agree False Alike (Attempt.mk (.list (settle os).1) (settle os).2).result
      (Attempt.mk (.list (settle ps).1) (settle ps).2).result := by
  refine agree_settle ?_ fun hfails => .list ?_
  · induction h with
    | nil => simp
    | cons hhead _ ih => simp only [List.exists_mem_cons_iff, hhead.fails, ih]
  · induction h with
    | nil => exact .nil
    | cons hhead _ ih =>
      obtain ⟨ho, hos⟩ := List.forall_mem_cons.1 hfails
      exact .cons (hhead.after ho) (ih hos)

/-- An entry that fails has one under its key on the other side that fails as well, wherever it stands. -/
theorem agree_settle_entries {os ps : Entries (Value × Attempt)}
    (h : Entries.Matched (fun o p => o.2.Similar p.2) os ps) :
    Agree False Alike
      (Attempt.mk (.map ((Entries.keys os).zip (settle (os.map (·.2))).1)) (settle (os.map (·.2))).2).result
      (Attempt.mk (.map ((Entries.keys ps).zip (settle (ps.map (·.2))).1)) (settle (ps.map (·.2))).2).result := by
  have hzip (os : Entries (Value × Attempt)) : (Entries.keys os).zip ((os.map (·.2)).map (·.2.after)) =
      os.map fun o => (o.1, o.2.2.after) := by
    rw [List.map_map, Entries.keys, List.zip_map']; rfl
  refine agree_settle (f := fun xs => .map ((Entries.keys os).zip xs))
    (g := fun xs => .map ((Entries.keys ps).zip xs)) ⟨?_, ?_⟩ fun hfails => ?_
  · rintro ⟨_, hmem, hfails⟩
    obtain ⟨o, ho, rfl⟩ := List.mem_map.1 hmem
    obtain ⟨p, hp, hop⟩ := h.exists_right ho
    exact ⟨p, List.mem_map.2 ⟨_, Entries.mem_of_get? hp, rfl⟩, hop.fails.1 hfails⟩
  · rintro ⟨_, hmem, hfails⟩
    obtain ⟨p, hp, rfl⟩ := List.mem_map.1 hmem
    obtain ⟨o, ho, hop⟩ := h.symm.exists_right hp
    exact ⟨o, List.mem_map.2 ⟨_, Entries.mem_of_get? ho, rfl⟩, hop.fails.2 hfails⟩
  · rw [hzip, hzip]
    exact .map (h.map fun key o p ho _ hop => hop.after (hfails o (List.mem_map.2 ⟨_, ho, rfl⟩)))

/-! ## Walks in whatever order -/

/-- What attempting a transform may come to where every walk over the entries of a map has an order of its
own. -/
def Gives (grants : Reservation) : Transform → Value → Attempt → Prop
  | .everyItem rest, .list items, a =>
    ∃ outcomes, List.Forall₂ (fun x o => o.1 = x ∧ Gives grants rest x o.2) items outcomes ∧
      a = ⟨.list (settle outcomes).1, (settle outcomes).2⟩
  | .everyField rest, .map entries, a =>
    ∃ outcomes, Entries.Visited (fun x o => o.1 = x ∧ Gives grants rest x o.2) entries outcomes ∧
      a = ⟨.map ((Entries.keys outcomes).zip (settle (outcomes.map (·.2))).1),
        (settle (outcomes.map (·.2))).2⟩
  | .item i rest, .list items, a =>
    match items[i.toNat]? with
    | some x => ∃ inner, Gives grants rest x inner ∧ a = ⟨.list (items.set i.toNat inner.after), inner.fatal?⟩
    | none => a = ⟨.list items, none⟩
  | .field name rest, .map entries, a =>
    if name = "" then ∃ inner, Gives grants rest (.map entries) inner ∧ a = ⟨inner.after, inner.fatal?⟩
    else
      match Entries.get? name entries with
      | some x =>
        ∃ inner, Gives grants rest x inner ∧ a = ⟨.map (Entries.put name inner.after entries), inner.fatal?⟩
      | none => a = ⟨.map entries, none⟩
  | t, v, a => a = t.apply grants v

/-- The attempt in the order in which the entries stand is one of them. The induction is on the transform. -/
theorem gives_apply (grants : Reservation) (t : Transform) (v : Value) : t.Gives grants v (t.apply grants v) := by
  induction t generalizing v with
  | everyItem rest ih =>
    cases v with
    | list items =>
      refine ⟨items.map fun x => (x, rest.apply grants x),
        List.forall₂_map_right_iff.2 (List.forall₂_same.2 fun x _ => ⟨rfl, ih x⟩), ?_⟩
      rw [apply, changeItems_eq_settle]
    | _ => rfl
  | everyField rest ih =>
    cases v with
    | map entries =>
      refine ⟨entries.map fun e => (e.1, e.2, rest.apply grants e.2),
        .in_order (f := fun x => (x, rest.apply grants x)) fun e _ => ⟨rfl, ih e.2⟩, ?_⟩
      have hkeys := Entries.keys_map (fun x => (x, rest.apply grants x)) entries
      rw [apply, changeEntries_eq, changeItems_eq_settle, List.map_map, List.map_map, hkeys]
      rfl
    | _ => rfl
  | item i rest ih =>
    cases v with
    | list items =>
      simp only [apply, Gives]
      cases items[i.toNat]? with
      | some x => exact ⟨_, ih x, rfl⟩
      | none => rfl
    | _ => rfl
  | field name rest ih =>
    cases v with
    | map entries =>
      simp only [apply, Gives]
      split
      · exact ⟨_, ih _, rfl⟩
      · cases Entries.get? name entries with
        | some x => exact ⟨_, ih x, rfl⟩
        | none => rfl
    | _ => rfl
  | copy | refuse => rfl

variable {grants : Reservation}

/-- An attempt that fails by an error of the data has changed nothing, whatever the orders are. -/
theorem Gives.after_eq_of_mismatch {t : Transform} {v : Value} {a : Attempt} (h : t.Gives grants v a)
    (hmis : Mismatches a.result) : a.after = v := by
  obtain ⟨e, hresult, he⟩ := hmis
  have herror := Attempt.result_eq_error.1 hresult
  have absurd_fatal {P : Prop} (hf : e.isFatal = true) : P := by rw [hf] at he; cases he
  have untouched {t : Transform} (ha : a = t.apply grants v) : a.after = v := by
    rw [ha] at herror ⊢
    exact Transform.after_eq_of_mismatch t v e herror he
  cases t with
  | everyItem rest =>
    cases v with
    | list items => obtain ⟨os, -, rfl⟩ := h; exact absurd_fatal (isFatal_of_settle herror)
    | _ => exact untouched h
  | everyField rest =>
    cases v with
    | map entries => obtain ⟨os, -, rfl⟩ := h; exact absurd_fatal (isFatal_of_settle herror)
    | _ => exact untouched h
  | item i rest =>
    cases v with
    | list items =>
      simp only [Gives] at h
      split at h
      · obtain ⟨inner, -, rfl⟩ := h; exact absurd_fatal (Attempt.isFatal_of_fatal? herror)
      · rw [h]
    | _ => exact untouched h
  | field name rest =>
    cases v with
    | map entries =>
      simp only [Gives] at h
      split at h
      · obtain ⟨inner, -, rfl⟩ := h; exact absurd_fatal (Attempt.isFatal_of_fatal? herror)
      · split at h
        · obtain ⟨inner, -, rfl⟩ := h; exact absurd_fatal (Attempt.isFatal_of_fatal? herror)
        · rw [h]
    | _ => exact untouched h
  | copy dest src => exact untouched h
  | refuse e => exact untouched h

/-- Attempts whose results agree are similar: a mismatch has left either value as it was. -/
theorem similar_of_agree {t : Transform} {v w : Value} {a b : Attempt} (h : Alike v w)
    (ha : t.Gives grants v a) (hb : t.Gives grants w b) (hagree : Agree False Alike a.result b.result) : a.Similar b := by
  refine ⟨hagree.fails_iff id, fun hfails => ?_⟩
  generalize hr : a.result = r at hagree hfails
  generalize hs : b.result = s at hagree
  cases hagree with
  | ok hab =>
    obtain ⟨-, rfl⟩ := Attempt.result_eq_ok.1 hr
    obtain ⟨-, rfl⟩ := Attempt.result_eq_ok.1 hs
    exact hab
  | mismatch he => rwa [ha.after_eq_of_mismatch ⟨_, hr, he⟩, hb.after_eq_of_mismatch ⟨_, hs, he⟩]
  | fails hr' _ => exact absurd hr' hfails
  | left hlax _ => exact hlax.elim
  | right hlax _ => exact hlax.elim

/-! ## Transforms -/

/-- Whatever the orders are, the results agree. The induction is on the transform; a walk over items or entries
fails on both sides or on none. -/
theorem agree_gives (t : Transform) {v w : Value} {a b : Attempt} (h : Alike v w)
    (ha : t.Gives grants v a) (hb : t.Gives grants w b) : Agree False Alike a.result b.result := by
  induction t generalizing v w a b with
  | everyItem rest ih =>
    cases v with
    | list xs =>
      obtain ⟨ys, rfl, hall⟩ := alike_list.1 h
      obtain ⟨os, hos, rfl⟩ := ha
      obtain ⟨ps, hps, rfl⟩ := hb
      exact agree_settle_items (forall₂_join hall hos hps fun x y o p hxy ho hp =>
        similar_of_agree hxy ho.2 hp.2 (ih hxy ho.2 hp.2))
    | map es => obtain ⟨fs, rfl, -⟩ := alike_map.1 h; cases ha; cases hb; exact .error .notAList
    | _ => cases h.tree; cases ha; cases hb; exact .error .notAList
  | everyField rest ih =>
    cases v with
    | map es =>
      obtain ⟨fs, rfl, hall⟩ := alike_map.1 h
      obtain ⟨os, hos, rfl⟩ := ha
      obtain ⟨ps, hps, rfl⟩ := hb
      exact agree_settle_entries (hall.join (hos.matched hall.left) (hps.matched hall.right)
        fun x y o p hxy ho hp => similar_of_agree hxy ho.2 hp.2 (ih hxy ho.2 hp.2))
    | list xs => obtain ⟨ys, rfl, -⟩ := alike_list.1 h; cases ha; cases hb; exact .error .notAStructure
    | _ => cases h.tree; cases ha; cases hb; exact .error .notAStructure
  | item i rest ih =>
    cases v with
    | list xs =>
      obtain ⟨ys, rfl, hall⟩ := alike_list.1 h
      simp only [Gives] at ha hb
      rcases Value.getElem?_cases hall i.toNat with ⟨hx, hy⟩ | ⟨x, y, hx, hy, hxy⟩
      · rw [hx] at ha
        rw [hy] at hb
        cases ha
        cases hb
        exact .ok h
      · rw [hx] at ha
        rw [hy] at hb
        obtain ⟨a, ha, rfl⟩ := ha
        obtain ⟨b, hb, rfl⟩ := hb
        refine (similar_of_agree hxy ha hb (ih hxy ha hb)).around (f := fun z => .list (xs.set i.toNat z))
          (g := fun z => .list (ys.set i.toNat z)) fun hafter => ?_
        exact .list (Value.forall₂_set hall hafter _)
    | map es => obtain ⟨fs, rfl, -⟩ := alike_map.1 h; cases ha; cases hb; exact .error .notAList
    | _ => cases h.tree; cases ha; cases hb; exact .error .notAList
  | field name rest ih =>
    cases v with
    | map es =>
      obtain ⟨fs, rfl, hall⟩ := alike_map.1 h
      simp only [Gives] at ha hb
      by_cases hn : name = ""
      · rw [if_pos hn] at ha hb
        obtain ⟨a, ha, rfl⟩ := ha
        obtain ⟨b, hb, rfl⟩ := hb
        exact (similar_of_agree h ha hb (ih h ha hb)).around (f := id) (g := id) id
      · rw [if_neg hn] at ha hb
        rcases hall.get?_cases name with ⟨hx, hy⟩ | ⟨x, y, hx, hy, hxy⟩
        · rw [hx] at ha
          rw [hy] at hb
          cases ha
          cases hb
          exact .ok h
        · rw [hx] at ha
          rw [hy] at hb
          obtain ⟨a, ha, rfl⟩ := ha
          obtain ⟨b, hb, rfl⟩ := hb
          refine (similar_of_agree hxy ha hb (ih hxy ha hb)).around
            (f := fun z => .map (Entries.put name z es)) (g := fun z => .map (Entries.put name z fs))
            fun hafter => ?_
          exact .map (hall.put hafter name)
    | list xs => obtain ⟨ys, rfl, -⟩ := alike_list.1 h; cases ha; cases hb; exact .error .notAStructure
    | _ => cases h.tree; cases ha; cases hb; exact .error .notAStructure
  | copy dest src =>
    cases ha
    cases hb
    rw [apply, apply, copyWithin, copyWithin]
    cases hx : v.get src with
    | error e => rw [Value.get_error_alike h hx]; exact .error e
    | ok x =>
      obtain ⟨y, hy, hxy⟩ := Value.get_alike h hx
      rw [hy]
      let a := Value.setWithin grants x dest v
      let b := Value.setWithin grants y dest w
      obtain ⟨herror, hafter⟩ : a.error = b.error ∧ Alike a.after b.after := Value.setWithin_alike hxy h
      show Agree False Alike a.result b.result
      rw [Attempt.result, Attempt.result, ← herror]
      split
      · exact .ok hafter
      · exact .error _
  | refuse e => cases ha; cases hb; exact .error e

end Transform

end JsonSieve
