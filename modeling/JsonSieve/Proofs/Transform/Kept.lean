/-
Transforms in place, "a part that does not fit is left as it was": a transform that fails by an error
of the data has changed nothing. Below the top such failures are absorbed and the transform goes on
with what the attempt left, so it does the same as one that puts every part that does not fit back as
it came in (`applyKeeping`). Only an error of the directive leaves partial changes.
-/
import JsonSieve.Transform.Apply
import JsonSieve.Proofs.Path.Atomic
import Mathlib.Data.Option.Basic

namespace JsonSieve

/-! ## What is absorbed -/

/-- An error that an attempt on a part passes on lies in the directive. -/
theorem Attempt.isFatal_of_fatal? {attempt : Attempt} {e : Error} (h : attempt.fatal? = some e) :
    e.isFatal = true :=
  (Option.filter_eq_some_iff.1 h).2

theorem Attempt.error_of_fatal? {attempt : Attempt} {e : Error} (h : attempt.fatal? = some e) :
    attempt.error = some e :=
  (Option.filter_eq_some_iff.1 h).1

/-- An attempt that has put its part back as it was, if the part does not fit. -/
def Attempt.restoring (part : Value) (attempt : Attempt) : Attempt :=
  match attempt.error with
  | some e => if e.isFatal then attempt else ⟨part, some e⟩
  | none => attempt

/-- Putting back a part that a failure on the data has left alone changes nothing. -/
theorem Attempt.restoring_eq {part : Value} {attempt : Attempt}
    (h : ∀ e, attempt.error = some e → e.isFatal = false → attempt.after = part) :
    attempt.restoring part = attempt := by
  obtain ⟨after, error⟩ := attempt
  unfold restoring
  cases error with
  | none => rfl
  | some e =>
    cases he : e.isFatal with
    | true => simp only [he, if_true]
    | false =>
      have : after = part := h e rfl he
      simp only [he, Bool.false_eq_true, if_false, this]

namespace Transform

variable {grants : Reservation}

/-- The error that ends a walk over items is that of the attempt on one of them. -/
theorem exists_of_changeItems {change : Value → Attempt} {items : List Value} {e : Error}
    (h : (changeItems change items).2 = some e) : ∃ x ∈ items, (change x).fatal? = some e := by
  fun_induction changeItems change items with
  | case1 => cases h
  | case2 x xs attempt e' he => cases h; exact ⟨x, List.mem_cons_self, he⟩
  | case3 x xs attempt he ys e' hys ih =>
    rw [hys] at ih
    obtain ⟨y, hy, hfatal⟩ := ih h
    exact ⟨y, List.mem_cons_of_mem x hy, hfatal⟩

theorem isFatal_of_changeItems {change : Value → Attempt} {items : List Value} {e : Error}
    (h : (changeItems change items).2 = some e) : e.isFatal = true := by
  obtain ⟨x, -, hx⟩ := exists_of_changeItems h
  exact Attempt.isFatal_of_fatal? hx

/-- The contents of entries are changed like items, and the keys stay. -/
theorem changeEntries_eq (change : Value → Attempt) (entries : List (String × Value)) :
    changeEntries change entries =
      ((Entries.keys entries).zip (changeItems change (entries.map (·.2))).1,
        (changeItems change (entries.map (·.2))).2) := by
  induction entries with
  | nil => rfl
  | cons entry rest ih =>
    obtain ⟨key, x⟩ := entry
    have untouched : rest = (Entries.keys rest).zip (rest.map (·.2)) := List.zip_of_prod rfl rfl
    simp only [changeEntries, changeItems, List.map_cons, Entries.keys]
    cases (change x).fatal? with
    | none => simp only [ih]; rfl
    | some e => simp only [List.zip_cons_cons]; exact congrArg (fun r => ((key, _) :: r, _)) untouched

theorem isFatal_of_changeEntries {change : Value → Attempt} {entries : List (String × Value)}
    {e : Error} (h : (changeEntries change entries).2 = some e) : e.isFatal = true := by
  rw [changeEntries_eq] at h; exact isFatal_of_changeItems h

/-! ## Failure on the data changes nothing -/

theorem after_copyWithin {dest src : Path} {v : Value} {e : Error}
    (h : (copyWithin grants dest src v).error = some e) : (copyWithin grants dest src v).after = v := by
  unfold copyWithin at h ⊢
  split at h
  · exact Value.after_eq_of_error h
  · rfl

/-- The cases follow the operators: the containers' own errors come before any change, what passes
through from a part is an error of the directive, and a copy is a set that fails as a whole. -/
theorem after_eq_of_mismatch (t : Transform) (v : Value) (e : Error) (h : (t.apply grants v).error = some e)
    (he : e.isFatal = false) : (t.apply grants v).after = v := by
  -- a part's mismatch is absorbed, so what comes up from a part is never an error of the data
  have absurd_fatal {P : Prop} (hf : e.isFatal = true) : P := by rw [hf] at he; cases he
  cases t with
  | everyItem rest =>
    unfold apply at h ⊢
    split at h
    · exact absurd_fatal (isFatal_of_changeItems h)
    · rfl
  | everyField rest =>
    unfold apply at h ⊢
    split at h
    · exact absurd_fatal (isFatal_of_changeEntries h)
    · rfl
  | item i rest =>
    unfold apply at h ⊢
    split at h
    · split at h
      · exact absurd_fatal (Attempt.isFatal_of_fatal? h)
      · cases h
    · rfl
  | field name rest =>
    unfold apply at h ⊢
    split at h
    · split at h
      · exact absurd_fatal (Attempt.isFatal_of_fatal? h)
      · split at h
        · exact absurd_fatal (Attempt.isFatal_of_fatal? h)
        · cases h
    · rfl
  | copy dest src => exact after_copyWithin h
  | refuse e' => rfl

/-! ## Parts are kept at any depth -/

/-- Attempts to transform a value in place, putting every part that does not fit back as it was. -/
def applyKeeping (grants : Reservation) : Transform → Value → Attempt
  | .everyItem rest, v =>
    match v with
    | .list items =>
      let (items, e) := changeItems (fun x => (applyKeeping grants rest x).restoring x) items
      ⟨.list items, e⟩
    | _ => ⟨v, some .notAList⟩
  | .everyField rest, v =>
    match v with
    | .map entries =>
      let (entries, e) := changeEntries (fun x => (applyKeeping grants rest x).restoring x) entries
      ⟨.map entries, e⟩
    | _ => ⟨v, some .notAStructure⟩
  | .item i rest, v =>
    match v with
    | .list items =>
      match items[i.toNat]? with
      | some x =>
        let inner := (applyKeeping grants rest x).restoring x
        ⟨.list (items.set i.toNat inner.after), inner.fatal?⟩
      | none => ⟨v, none⟩
    | _ => ⟨v, some .notAList⟩
  | .field name rest, v =>
    match v with
    | .map entries =>
      if name = "" then
        let inner := (applyKeeping grants rest v).restoring v
        ⟨inner.after, inner.fatal?⟩
      else
        match Entries.get? name entries with
        | some x =>
          let inner := (applyKeeping grants rest x).restoring x
          ⟨.map (Entries.put name inner.after entries), inner.fatal?⟩
        | none => ⟨v, none⟩
    | _ => ⟨v, some .notAStructure⟩
  | .copy dest src, v => copyWithin grants dest src v
  | .refuse e, v => ⟨v, some e⟩

/-- Keeping the parts that do not fit is what a transform does anyway. -/
theorem applyKeeping_eq_apply (grants : Reservation) (t : Transform) : t.applyKeeping grants = t.apply grants := by
  have restored (rest : Transform) (ih : rest.applyKeeping grants = rest.apply grants) (x : Value) :
      (rest.applyKeeping grants x).restoring x = rest.apply grants x := by
    rw [ih]; exact Attempt.restoring_eq (after_eq_of_mismatch rest x)
  funext v
  induction t generalizing v with
  | everyItem rest ih =>
    cases v with
    | list items => simp only [applyKeeping, apply, restored rest (funext ih)]
    | _ => rfl
  | everyField rest ih =>
    cases v with
    | map entries => simp only [applyKeeping, apply, restored rest (funext ih)]
    | _ => rfl
  | item i rest ih =>
    cases v with
    | list items =>
      simp only [applyKeeping, apply]
      cases items[i.toNat]? with
      | some x => simp only [restored rest (funext ih) x]
      | none => rfl
    | _ => rfl
  | field name rest ih =>
    cases v with
    | map entries =>
      by_cases hn : name = ""
      · simp only [applyKeeping, apply, if_pos hn, restored rest (funext ih) (.map entries)]
      · simp only [applyKeeping, apply, if_neg hn]
        cases Entries.get? name entries with
        | some x => simp only [restored rest (funext ih) x]
        | none => rfl
    | _ => rfl
  | copy dest src => rfl
  | refuse e => rfl

end Transform

/-- A transform that fails on the data leaves the value exactly as it was; so at any depth what is
left of a part whose mismatch is absorbed is the part itself. -/
theorem Value.transform_keeps_mismatch (grants : Reservation) (v : Value) (directive : Text) :
    (∀ e, (v.transform grants directive).error = some e → e.isFatal = false →
      (v.transform grants directive).after = v) ∧
    v.transform grants directive = (Transform.parse directive).applyKeeping grants v :=
  ⟨Transform.after_eq_of_mismatch (Transform.parse directive) v,
    (congrFun (Transform.applyKeeping_eq_apply grants (Transform.parse directive)) v).symm⟩

theorem Value.transform_keeps_mismatch_wrong_kind :
    let v : Value := .map [("a", .int 1), ("b", .list [.null])]
    (v.transform .standard "{.a.c=.b[0]}".toList).error = some .notAStructure ∧
      (v.transform .standard "{.a.c=.b[0]}".toList).after = v := by
  intro v
  have h : (v.transform .standard "{.a.c=.b[0]}".toList).error = some .notAStructure := by decide +kernel
  exact ⟨h, (transform_keeps_mismatch .standard v _).1 _ h rfl⟩

end JsonSieve
