/-
Getting and setting agree on what a path means. A step of a setting goes into the part that getting
goes into; where getting finds nothing, the rest is set in a blank container and that is attached to
the value, if a list gets the room for it. So a setting fails by the kind of a value just where
getting does, and otherwise only for want of room, provided that nothing it grows is of the wrong
kind: a bare dot asks for a map, so no index may follow it.
-/
import JsonSieve.Proofs.Path.Atomic
import JsonSieve.Proofs.Path.Stepwise
import Mathlib.Data.List.Chain

namespace JsonSieve

/-! ## One step of a setting -/

/-- Whether a list of `held` items gets room up to an index; `rest` is the path after it. -/
def Reservation.hasRoom (grants : Reservation) (rest : Path) (held : Nat) (i : UInt64) : Bool :=
  (nextIndex? i).any fun length => grants rest held (length.toNat - held)

/-- The value with something at a step that led nowhere: a map gains the key, and a list is padded
with nulls up to the index. -/
def Step.attach : Step → Value → Value → Value
  | .key name, .map entries, x => .map (Entries.put name x entries)
  | .index i, .list items, x =>
    .list (items ++ List.replicate (i.toNat - items.length) .null ++ [x])
  | _, v, _ => v

/-- Why nothing can be attached at a step that led nowhere: a list gets no room. -/
def Step.refusal (grants : Reservation) (rest : Path) : Step → Value → Option Error
  | .index i, .list items =>
    if grants.hasRoom rest items.length i then none else some (.illegal (.cannotGrow i))
  | _, _ => none

variable {grants : Reservation} {new v w part : Value} {rebuild : Value → Value} {step : Step}
  {path rest : Path} {e : Error}

/-- A step leads nowhere at a key that a map lacks and at an index past the end of a list. -/
theorem Step.into_notFound (h : step.into v = .error .notFound) :
    (∃ name entries, step = .key name ∧ name ≠ "" ∧ v = .map entries ∧
      Entries.get? name entries = none) ∨
    ∃ i items, step = .index i ∧ v = .list items ∧ items[i.toNat]? = none := by
  unfold into at h
  split at h
  · rename_i name entries
    by_cases hn : name = ""
    · rw [if_pos hn] at h; cases h
    · rw [if_neg hn] at h
      cases hx : Entries.get? name entries with
      | none => exact .inl ⟨name, entries, rfl, hn, rfl, hx⟩
      | some x => rw [hx] at h; cases h
  · cases h
  · rename_i i items
    cases hx : items[i.toNat]? with
    | none => exact .inr ⟨i, items, rfl, rfl, hx⟩
    | some x => rw [hx] at h; cases h
  · cases h

/-- What a step does in a value: it leads to a part, it leads nowhere, or the value is of a kind that
it does not look into. -/
theorem Step.into_trichotomy (step : Step) (v : Value) :
    (∃ part rebuild, step.into v = .ok (part, rebuild)) ∨ step.into v = .error .notFound ∨
      step.suits v = false := by
  cases hinto : step.into v with
  | ok p => exact .inl ⟨p.1, p.2, rfl⟩
  | error e =>
    cases hs : step.suits v with
    | true => exact .inr (.inl (by rw [error_of_suits hs hinto]))
    | false => exact .inr (.inr rfl)

namespace Value

/-- Setting where a step leads nowhere: what is to be there is built first, and then attached. -/
theorem setWithin_of_notFound (h : step.into v = .error .notFound) (new : Value) :
    setWithin grants new (step :: path) v =
      match (setWithin grants new path (blankFor path)).error <|> step.refusal grants path v with
      | some e => ⟨v, some e⟩
      | none => ⟨step.attach v (setWithin grants new path (blankFor path)).after, none⟩ := by
  obtain ⟨name, entries, rfl, hn, rfl, hx⟩ | ⟨i, items, rfl, rfl, hx⟩ := Step.into_notFound h
  · simp only [setWithin, if_neg hn, hx, Step.refusal]
    cases (setWithin grants new path (blankFor path)).error <;> rfl
  · simp only [setWithin, hx]
    cases (setWithin grants new path (blankFor path)).error with
    | some e => rfl
    | none =>
      dsimp only
      split
      · rename_i hroom
        rw [Step.refusal, if_pos (show grants.hasRoom path items.length i = true from hroom)]
        rfl
      · rename_i hroom
        rw [Step.refusal, if_neg (show ¬ grants.hasRoom path items.length i = true from hroom)]
        rfl

theorem error_of_notFound (h : step.into v = .error .notFound) (new : Value) :
    (setWithin grants new (step :: path) v).error =
      ((setWithin grants new path (blankFor path)).error <|> step.refusal grants path v) := by
  rw [setWithin_of_notFound h]
  cases ((setWithin grants new path (blankFor path)).error <|> step.refusal grants path v) <;> rfl

/-- A value of another kind is refused as getting refuses it. -/
theorem setWithin_of_not_suits (hs : step.suits v = false) (path : Path) (new : Value) :
    ∃ e, step.into v = .error e ∧ e ≠ .notFound ∧ e ≠ .noMatch ∧
      setWithin grants new (step :: path) v = ⟨v, some e⟩ := by
  cases step with
  | key name =>
    cases v with
    | map entries => cases hs
    | _ => exact ⟨.notAStructure, rfl, by decide, by decide, rfl⟩
  | index i =>
    cases v with
    | list items => cases hs
    | _ => exact ⟨.notAList, rfl, by decide, by decide, rfl⟩

/-! ## The outcome -/

/-- Whether a setting fails, and by which error, does not depend on what is set. -/
theorem error_eq_of_new (grants : Reservation) (a b : Value) (path : Path) (v : Value) :
    (setWithin grants a path v).error = (setWithin grants b path v).error := by
  induction path generalizing v with
  | nil => rfl
  | cons step path ih =>
    obtain ⟨part, rebuild, hinto⟩ | hinto | hs := step.into_trichotomy v
    · rw [setWithin_cons hinto, setWithin_cons hinto]
      exact ih part
    · rw [error_of_notFound hinto, error_of_notFound hinto, ih]
    · obtain ⟨e, hinto, -, -, hset⟩ := setWithin_of_not_suits hs path a
      obtain ⟨e', hinto', -, -, hset'⟩ := setWithin_of_not_suits hs path b
      rw [hset, hset']
      rw [hinto] at hinto'
      cases hinto'
      rfl

/-- An attempt at a path in a value comes to a list that gets no room up to an index of the path, and
fails by that. -/
def LacksRoom (grants : Reservation) (path : Path) (v : Value) (e : Error) : Prop :=
  ∃ i rest items, Descends path v (.index i :: rest) (.list items) ∧ items[i.toNat]? = none ∧
    grants.hasRoom rest items.length i = false ∧ e = .illegal (.cannotGrow i)

theorem Descends.suffix {part : Value} (h : Descends path v rest part) : rest <:+ path := by
  induction h with
  | refl => exact List.suffix_refl _
  | self _ ih | entry _ _ _ ih | newEntry _ _ _ ih | item _ _ ih | newItem _ _ ih =>
    exact ih.trans (List.suffix_cons _ _)

theorem LacksRoom.into (hinto : step.into v = .ok (part, rebuild))
    (h : LacksRoom grants path part e) : LacksRoom grants (step :: path) v e := by
  obtain ⟨i, rest, items, hd, hroom⟩ := h
  refine ⟨i, rest, items, ?_, hroom⟩
  obtain ⟨entries, rfl, rfl, rfl, -⟩ | ⟨name, entries, rfl, hn, rfl, hx, -⟩ |
    ⟨j, others, rfl, rfl, hx, -⟩ := Step.into_cases hinto
  · exact .self hd
  · exact .entry hn hx hd
  · exact .item hx hd

theorem LacksRoom.blank (hinto : step.into v = .error .notFound)
    (h : LacksRoom grants path (blankFor path) e) : LacksRoom grants (step :: path) v e := by
  obtain ⟨i, rest, items, hd, hroom⟩ := h
  refine ⟨i, rest, items, ?_, hroom⟩
  obtain ⟨name, entries, rfl, hn, rfl, hx⟩ | ⟨j, others, rfl, rfl, hx⟩ := Step.into_notFound hinto
  · exact .newEntry hn hx hd
  · exact .newItem hx hd

theorem LacksRoom.here (hinto : step.into v = .error .notFound)
    (h : step.refusal grants path v = some e) : LacksRoom grants (step :: path) v e := by
  obtain ⟨name, entries, rfl, hn, rfl, hx⟩ | ⟨i, items, rfl, rfl, hx⟩ := Step.into_notFound hinto
  · cases h
  · rw [Step.refusal] at h
    split at h
    · cases h
    · rename_i hroom
      cases h
      exact ⟨i, path, items, .refl, hx, Bool.eq_false_iff.2 hroom, rfl⟩

/-! ## Agreement -/

end Value

/-- Whether a step is an index. -/
def Step.isIndex : Step → Bool
  | .key _ => false
  | .index _ => true

/-- No bare dot of a path is directly followed by an index. -/
def Path.DotsBeforeKeys (path : Path) : Prop :=
  path.IsChain fun s t => ¬ (s = .key "" ∧ t.isIndex = true)

instance (path : Path) : Decidable path.DotsBeforeKeys :=
  inferInstanceAs (Decidable (path.IsChain fun s t => ¬ (s = .key "" ∧ t.isIndex = true)))

theorem Path.DotsBeforeKeys.tail (h : DotsBeforeKeys (step :: path)) : DotsBeforeKeys path :=
  List.IsChain.tail h

namespace Value

/-- Where getting fails by the kind of a value, setting fails by the same error. -/
theorem error_of_get_error (h : v.get path = .error e) (he : e ≠ .notFound) (new : Value) :
    (setWithin grants new path v).error = some e := by
  induction path generalizing v with
  | nil => cases h
  | cons step path ih =>
    obtain ⟨part, rebuild, hinto⟩ | hinto | hs := step.into_trichotomy v
    · rw [get_cons_ok hinto] at h
      rw [setWithin_cons hinto]
      exact ih h
    · rw [get_cons_error hinto] at h
      cases h
      exact absurd rfl he
    · obtain ⟨e', hinto, -, -, hset⟩ := setWithin_of_not_suits hs path new
      rw [get_cons_error hinto] at h
      cases h
      rw [hset]

/-- In a blank container a path finds at most nothing, unless an index follows a bare dot. -/
theorem get_blankFor (hp : path.DotsBeforeKeys) (h : (blankFor path).get path = .error e) :
    e = .notFound := by
  induction path with
  | nil => cases h
  | cons step path ih =>
    cases step with
    | index i => cases h; rfl
    | key name =>
      by_cases hn : name = ""
      · subst hn
        rw [blankFor, get, if_pos rfl] at h
        cases path with
        | nil => cases h
        | cons next path =>
          cases next with
          | key other => exact ih hp.tail h
          | index i => exact absurd ⟨rfl, rfl⟩ (List.isChain_cons_cons.1 hp).1
      · rw [blankFor, get, if_neg hn] at h
        cases h; rfl

/-- A setting fails as getting does, by the kind of a value, or where getting finds nothing for want
of room. The induction is on the path; what is grown for its rest is blank, so in there a failure can
only be of the second sort. -/
theorem get_of_error (hp : path.DotsBeforeKeys)
    (h : (setWithin grants new path v).error = some e) :
    v.get path = .error e ∧ e ≠ .notFound ∨
      v.get path = .error .notFound ∧ LacksRoom grants path v e := by
  induction path generalizing v e with
  | nil => cases h
  | cons step path ih =>
    obtain ⟨part, rebuild, hinto⟩ | hinto | hs := step.into_trichotomy v
    · rw [setWithin_cons hinto] at h
      rw [get_cons_ok hinto]
      obtain hkind | ⟨hnone, hroom⟩ := ih hp.tail h
      · exact .inl hkind
      · exact .inr ⟨hnone, hroom.into hinto⟩
    · rw [error_of_notFound hinto] at h
      refine .inr ⟨get_cons_error hinto, ?_⟩
      cases hfresh : (setWithin grants new path (blankFor path)).error with
      | none =>
        rw [hfresh] at h
        exact .here hinto h
      | some e' =>
        rw [hfresh] at h
        cases h
        obtain ⟨hkind, hne⟩ | ⟨-, hroom⟩ := ih hp.tail hfresh
        · exact absurd (get_blankFor hp.tail hkind) hne
        · exact hroom.blank hinto
    · obtain ⟨e', hinto, hne, -, hset⟩ := setWithin_of_not_suits hs path new
      rw [hset] at h
      cases h
      exact .inl ⟨get_cons_error hinto, hne⟩

/-- A setting fails by the kind of a value, or because a list gets no room. -/
theorem error_cases (h : (setWithin grants new path v).error = some e) :
    e = .notAList ∨ e = .notAStructure ∨ ∃ i, e = .illegal (.cannotGrow i) := by
  induction path generalizing v with
  | nil => cases h
  | cons step path ih =>
    obtain ⟨part, rebuild, hinto⟩ | hinto | hs := step.into_trichotomy v
    · rw [setWithin_cons hinto] at h
      exact ih h
    · rw [error_of_notFound hinto] at h
      cases hfresh : (setWithin grants new path (blankFor path)).error with
      | some e' => rw [hfresh] at h; cases h; exact ih hfresh
      | none =>
        rw [hfresh] at h
        obtain ⟨i, rest, items, -, -, -, rfl⟩ := LacksRoom.here hinto h
        exact .inr (.inr ⟨i, rfl⟩)
    · obtain ⟨e', hinto, hne, -, hset⟩ := setWithin_of_not_suits hs path new
      rw [hset] at h
      cases h
      rcases Step.error_of_into hinto with he | he | he
      · exact absurd he hne
      · exact .inl he
      · exact .inr (.inl he)

/-- No setting fails because nothing is there or because nothing matches. -/
theorem error_ne (h : (setWithin grants new path v).error = some e) : e ≠ .notFound ∧ e ≠ .noMatch := by
  rcases error_cases h with rfl | rfl | ⟨i, rfl⟩
  · exact ⟨by simp, by simp⟩
  · exact ⟨by simp, by simp⟩
  · exact ⟨by simp, by simp⟩

/-- Getting and setting agree where no index follows a bare dot directly: setting succeeds where getting
does, fails by the same kind of a value, and grows what getting does not find or names the index that a
list gets no room for. What is set never matters for that. -/
theorem setWithin_agrees_with_get (grants : Reservation) (new : Value) (path : Path) (v : Value) :
    (path.DotsBeforeKeys →
      (∀ w, v.get path = .ok w → (setWithin grants new path v).error = none) ∧
      (∀ e, e = .notAStructure ∨ e = .notAList → v.get path = .error e →
        (setWithin grants new path v).error = some e) ∧
      (v.get path = .error .notFound → (setWithin grants new path v).error = none ∨
        ∃ i rest items, .index i ∈ path ∧ Descends path v (.index i :: rest) (.list items) ∧
          items[i.toNat]? = none ∧ grants.hasRoom rest items.length i = false ∧
          (setWithin grants new path v).error = some (.illegal (.cannotGrow i)) ∧
          (Illegal.cannotGrow i).message =
            "cannot grow a list to index ".toList ++ Text.ofNat i.toNat)) ∧
    (∀ other, (setWithin grants other path v).error = (setWithin grants new path v).error) ∧
    (setWithin grants new path v).error ≠ some .notFound ∧
    (setWithin grants new path v).error ≠ some .noMatch := by
  refine ⟨fun hp => ⟨fun w hw => error_of_get hw new, ?_, fun hnone => ?_⟩,
    fun other => error_eq_of_new grants other new path v, fun h => (error_ne h).1 rfl,
    fun h => (error_ne h).2 rfl⟩
  · rintro e (rfl | rfl) he
    · exact error_of_get_error he (by decide) new
    · exact error_of_get_error he (by decide) new
  · cases herr : (setWithin grants new path v).error with
    | none => exact .inl rfl
    | some e =>
      obtain ⟨hkind, hne⟩ | ⟨-, i, rest, items, hd, hend, hroom, rfl⟩ := get_of_error hp herr
      · rw [hnone] at hkind
        cases hkind
        exact absurd rfl hne
      · exact .inr ⟨i, rest, items, hd.suffix.subset List.mem_cons_self, hd, hend, hroom, rfl, rfl⟩

/-- A list that grows within what was grown for a key gets no room. -/
theorem setWithin_agrees_with_get_no_room :
    let grants : Reservation := fun rest _ extra => rest.length < 2 || extra < 3
    let path : Path := [.key "a", .key "", .key "b", .index 3, .key "", .key "c"]
    let v : Value := .map [("a", .map [])]
    path.DotsBeforeKeys ∧ v.get path = .error .notFound ∧
      (setWithin grants .null path v).error = some (.illegal (.cannotGrow 3)) ∧
      ∃ i rest items, .index i ∈ path ∧ Descends path v (.index i :: rest) (.list items) ∧
        grants.hasRoom rest items.length i = false := by
  intro grants path v
  have hp : path.DotsBeforeKeys := by decide
  have hget : v.get path = .error .notFound := rfl
  have herr : (setWithin grants .null path v).error = some (.illegal (.cannotGrow 3)) := by decide
  obtain ⟨-, -, hnone⟩ := (setWithin_agrees_with_get grants .null path v).1 hp
  obtain hok | ⟨i, rest, items, hi, hd, -, hroom, -⟩ := hnone hget
  · rw [herr] at hok; cases hok
  · exact ⟨hp, hget, herr, i, rest, items, hi, hd, hroom⟩

end Value

end JsonSieve
