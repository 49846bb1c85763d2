/-
Setting touches only its own address: a path that parts from the one that is set reads what it read
before, and where it reads something new, that is the null that pads a list up to a later index. One
step of a setting says what every single step reads afterwards (`get_step_after`); from this the
frame follows by induction on where the paths part (`Path.Part`). Bare dots stand for the map they
are in, so paths are compared without them.
-/
import JsonSieve.Proofs.Path.Atomic
import JsonSieve.Proofs.Path.Stepwise

namespace JsonSieve

/-! ## Independent paths -/

namespace Path

/-- A path without its bare dots. -/
def core (path : Path) : Path :=
  path.filter (· ≠ .key "")

/-- Neither path is a prefix of the other, bare dots left out. -/
def Independent (p q : Path) : Prop :=
  ¬ p.core <+: q.core ∧ ¬ q.core <+: p.core

/-- Two paths that go the same way and then part, with bare dots anywhere. -/
inductive Part : Path → Path → Prop
  | here {s t : Step} {p q : Path} : s ≠ .key "" → t ≠ .key "" → t ≠ s → Part (s :: p) (t :: q)
  | next {s : Step} {p q : Path} : s ≠ .key "" → Part p q → Part (s :: p) (s :: q)
  | dotLeft {p q : Path} : Part p q → Part (.key "" :: p) q
  | dotRight {p q : Path} : Part p q → Part p (.key "" :: q)

/-- Where the second path parts from the first it ends, at an earlier index of the same list. -/
def EndsBefore (q p : Path) : Prop :=
  ∃ common i j rest, core p = common ++ .index i :: rest ∧ core q = common ++ [.index j] ∧ j < i

@[simp] theorem core_nil : core [] = [] := rfl

@[simp] theorem core_dot (p : Path) : core (.key "" :: p) = core p := by
  simp [core]

theorem core_cons {s : Step} (hs : s ≠ .key "") (p : Path) : core (s :: p) = s :: core p := by
  simp [core, hs]

/-- The induction is on the first path, and within it on the second for its bare dots. -/
theorem Independent.part {p q : Path} (h : Independent p q) : Part p q := by
  obtain ⟨hpq, hqp⟩ := h
  induction p generalizing q with
  | nil => exact absurd List.nil_prefix hpq
  | cons s p ihp =>
    by_cases hs : s = .key ""
    · subst hs
      rw [core_dot] at hpq hqp
      exact .dotLeft (ihp hpq hqp)
    · rw [core_cons hs] at hpq hqp
      induction q with
      | nil => exact absurd List.nil_prefix hqp
      | cons t q ihq =>
        by_cases ht : t = .key ""
        · subst ht
          rw [core_dot] at hpq hqp
          exact .dotRight (ihq hpq hqp)
        · rw [core_cons ht] at hpq hqp
          by_cases hst : t = s
          · subst hst
            rw [List.cons_prefix_cons] at hpq hqp
            exact .next hs (ihp (fun h => hpq ⟨rfl, h⟩) (fun h => hqp ⟨rfl, h⟩))
          · exact .here hs ht hst

theorem Part.core_ne_nil {p q : Path} (h : Part p q) : p.core ≠ [] ∧ q.core ≠ [] := by
  induction h with
  | here hs ht _ => rw [core_cons hs, core_cons ht]; exact ⟨List.cons_ne_nil _ _, List.cons_ne_nil _ _⟩
  | next hs _ _ => rw [core_cons hs, core_cons hs]; exact ⟨List.cons_ne_nil _ _, List.cons_ne_nil _ _⟩
  | dotLeft _ ih => rw [core_dot]; exact ih
  | dotRight _ ih => rw [core_dot]; exact ih

theorem EndsBefore.next {s : Step} (hs : s ≠ .key "") {p q : Path} (h : EndsBefore q p) :
    EndsBefore (s :: q) (s :: p) := by
  obtain ⟨common, i, j, rest, hp, hq, hji⟩ := h
  refine ⟨s :: common, i, j, rest, ?_, ?_, hji⟩
  · rw [core_cons hs, hp, List.cons_append]
  · rw [core_cons hs, hq, List.cons_append]

theorem EndsBefore.dotLeft {p q : Path} (h : EndsBefore q p) : EndsBefore q (.key "" :: p) := by
  unfold EndsBefore at h ⊢
  rwa [core_dot]

theorem EndsBefore.dotRight {p q : Path} (h : EndsBefore q p) : EndsBefore (.key "" :: q) p := by
  unfold EndsBefore at h ⊢
  rwa [core_dot]

end Path

namespace Value

variable {grants : Reservation} {new : Value}

/-! ## What a setting leaves -/

/-- Below a value a setting keeps its kind. -/
theorem kind_after {p : Path} (hp : p.core ≠ []) (v : Value) :
    (setWithin grants new p v).after.kind = v.kind := by
  fun_induction setWithin grants new p v with
  | case1 => exact absurd rfl hp
  | case2 path entries ih => exact ih (by rwa [Path.core_dot] at hp)
  | case3 | case4 | case5 | case6 | case7 | case8 | case9 | case10 | case11 => rfl

theorem get_null {q : Path} {w : Value} (h : get q .null = .ok w) : q = [] ∧ w = .null := by
  cases q with
  | nil => cases h; exact ⟨rfl, rfl⟩
  | cons t q => cases t <;> cases h

/-- What a container is before anything is put into it. -/
def Blank (v : Value) : Prop :=
  v = .null ∨ v = .map [] ∨ v = .list []

theorem blank_blankFor (p : Path) : (blankFor p).Blank := by
  cases p with
  | nil => exact .inl rfl
  | cons s p =>
    cases s with
    | key name => exact .inr (.inl rfl)
    | index i => exact .inr (.inr rfl)

/-- In a blank value nothing is found but itself. -/
theorem Blank.core_eq_nil {v w : Value} (hv : v.Blank) {q : Path} (h : v.get q = .ok w) :
    q.core = [] := by
  induction q with
  | nil => rfl
  | cons t q ih =>
    rcases hv with rfl | rfl | rfl
    · exact absurd (get_null h).1 (List.cons_ne_nil _ _)
    · cases t with
      | key name =>
        by_cases hn : name = ""
        · subst hn
          rw [Path.core_dot]
          exact ih h
        · rw [get, if_neg hn] at h; cases h
      | index i => cases h
    · cases t <;> cases h

/-! ## One step of a setting -/

end Value

/-- The items of a list with one more in the place of an old one, or past the end, padded with nulls up
to it. -/
def Value.placed (items : List Value) (n : Nat) (x : Value) : List Value :=
  if n < items.length then items.set n x
  else items ++ List.replicate (n - items.length) .null ++ [x]

/-- The value with another part at a step: a map gains the key, and a list the item. -/
def Step.around : Step → Value → Value → Value
  | .key name, .map entries, x => .map (Entries.put name x entries)
  | .index i, .list items, x => .list (Value.placed items i.toNat x)
  | _, v, _ => v

/-- Where a setting at the rest of a path goes on after a step: in the part that is there, or in the
empty container that the rest asks for where nothing is. -/
def Step.Slot (step : Step) (rest : Path) (v slot : Value) : Prop :=
  v.get [step] = .ok slot ∨ v.get [step] = .error .notFound ∧ slot = Value.blankFor rest

namespace Value

theorem getElem?_placed (items : List Value) (n : Nat) (x : Value) (j : Nat) :
    (placed items n x)[j]? =
      if j = n then some x else if items.length ≤ j ∧ j < n then some .null else items[j]? := by
  unfold placed
  split
  · rename_i hn
    by_cases hj : j = n
    · rw [if_pos hj, hj, List.getElem?_set_self hn]
    · rw [if_neg hj, if_neg (by omega), List.getElem?_set_ne (Ne.symm hj)]
  · rename_i hn
    obtain ⟨k, rfl⟩ := Nat.exists_eq_add_of_le (Nat.not_lt.1 hn)
    rw [Nat.add_sub_cancel_left, List.append_assoc, List.getElem?_append, List.getElem?_append,
      List.getElem?_replicate, List.length_replicate, List.getElem?_singleton]
    by_cases hj : j < items.length
    · rw [if_pos hj, if_neg (by omega), if_neg (by omega)]
    · rw [if_neg hj, List.getElem?_eq_none (by omega)]
      by_cases hk : j < items.length + k
      · rw [if_pos (by omega), if_pos (by omega), if_neg (by omega), if_pos (by omega)]
      · by_cases he : j = items.length + k
        · rw [if_neg (by omega), if_pos (by omega), if_pos he]
        · rw [if_neg (by omega), if_neg (by omega), if_neg he, if_neg (by omega)]

theorem get_key {name : String} (hn : name ≠ "") (entries : Entries Value) :
    get [.key name] (.map entries) = (Entries.get? name entries).elim (.error .notFound) .ok := by
  simp only [get, if_neg hn]
  cases Entries.get? name entries <;> rfl

theorem get_index (i : UInt64) (items : List Value) :
    get [.index i] (.list items) = items[i.toNat]?.elim (.error .notFound) .ok := by
  simp only [get]
  cases items[i.toNat]? <;> rfl

/-- A setting that succeeds sets the rest of the path in the slot of the first step. -/
theorem setWithin_step {s : Step} (hs : s ≠ .key "") {p : Path} {v : Value}
    (h : (setWithin grants new (s :: p) v).error = none) :
    ∃ slot, s.suits v = true ∧ s.Slot p v slot ∧ (setWithin grants new p slot).error = none ∧
      (setWithin grants new (s :: p) v).after = s.around v (setWithin grants new p slot).after := by
  cases s with
  | key name =>
    have hn : name ≠ "" := by rintro rfl; exact hs rfl
    cases v with
    | map entries =>
      unfold Step.Slot
      rw [get_key hn]
      cases hx : Entries.get? name entries with
      | some slot =>
        simp only [setWithin, if_neg hn, hx] at h ⊢
        exact ⟨slot, rfl, .inl rfl, h, rfl⟩
      | none =>
        simp only [setWithin, if_neg hn, hx] at h ⊢
        refine ⟨blankFor p, rfl, .inr ⟨rfl, rfl⟩, ?_⟩
        cases he : (setWithin grants new p (blankFor p)).error with
        | none => exact ⟨rfl, rfl⟩
        | some e => rw [he] at h; cases h
    | _ => cases h
  | index i =>
    cases v with
    | list items =>
      unfold Step.Slot
      rw [get_index]
      cases hx : items[i.toNat]? with
      | some slot =>
        obtain ⟨hi, -⟩ := List.getElem?_eq_some_iff.1 hx
        simp only [setWithin, hx] at h ⊢
        refine ⟨slot, rfl, .inl rfl, h, ?_⟩
        rw [Step.around, placed, if_pos hi]
      | none =>
        have hlen : items.length ≤ i.toNat := List.getElem?_eq_none_iff.1 hx
        simp only [setWithin, hx] at h ⊢
        refine ⟨blankFor p, rfl, .inr ⟨rfl, rfl⟩, ?_⟩
        cases he : (setWithin grants new p (blankFor p)).error with
        | some e => rw [he] at h; cases h
        | none =>
          simp only [he] at h ⊢
          split at h
          · rename_i hroom
            rw [if_pos hroom, Step.around, placed, if_neg (by omega)]
            exact ⟨trivial, rfl⟩
          · cases h
    | _ => cases h

theorem get_around_self {s : Step} (hs : s ≠ .key "") {v : Value} (hv : s.suits v = true) (x : Value) :
    (s.around v x).get [s] = .ok x := by
  cases s with
  | key name =>
    have hn : name ≠ "" := by rintro rfl; exact hs rfl
    cases v with
    | map entries => rw [Step.around, get_key hn, Entries.get?_put_self]; rfl
    | _ => cases hv
  | index i =>
    cases v with
    | list items => rw [Step.around, get_index, getElem?_placed, if_pos rfl]; rfl
    | _ => cases hv

/-- Every other step reads what it read before, unless nothing was there and now a null pads the list. -/
theorem get_around_of_ne {s t : Step} (hs : s ≠ .key "") (ht : t ≠ .key "") (hts : t ≠ s) (v x : Value) :
    (s.around v x).get [t] = v.get [t] ∨
      v.get [t] = .error .notFound ∧ (s.around v x).get [t] = .ok .null ∧
        ∃ i j, s = .index i ∧ t = .index j ∧ j < i := by
  cases s with
  | key name =>
    cases v with
    | map entries =>
      cases t with
      | key other =>
        have ho : other ≠ "" := by rintro rfl; exact ht rfl
        have hne : other ≠ name := by rintro rfl; exact hts rfl
        rw [Step.around, get_key ho, get_key ho, Entries.get?_put_of_ne hne]
        exact .inl rfl
      | index j => exact .inl rfl
    | _ => exact .inl rfl
  | index i =>
    cases v with
    | list items =>
      cases t with
      | key other => exact .inl rfl
      | index j =>
        have hne : j.toNat ≠ i.toNat := by
          intro hji; exact hts (by rw [UInt64.toNat_inj.1 hji])
        rw [Step.around, get_index, get_index, getElem?_placed, if_neg hne]
        by_cases hpad : items.length ≤ j.toNat ∧ j.toNat < i.toNat
        · rw [if_pos hpad, List.getElem?_eq_none hpad.1]
          exact .inr ⟨rfl, rfl, i, j, rfl, rfl, hpad.2⟩
        · rw [if_neg hpad]
          exact .inl rfl
    | _ => exact .inl rfl

/-- After a setting the first step reads its slot with the rest set in it, and every other step what it
read before or the padding of a list. -/
theorem get_step_after {s : Step} (hs : s ≠ .key "") {p : Path} {v : Value}
    (h : (setWithin grants new (s :: p) v).error = none) :
    (∃ slot, s.Slot p v slot ∧ (setWithin grants new p slot).error = none ∧
      (setWithin grants new (s :: p) v).after.get [s] = .ok (setWithin grants new p slot).after) ∧
    ∀ t, t ≠ .key "" → t ≠ s →
      (setWithin grants new (s :: p) v).after.get [t] = v.get [t] ∨
      v.get [t] = .error .notFound ∧ (setWithin grants new (s :: p) v).after.get [t] = .ok .null ∧
        ∃ i j, s = .index i ∧ t = .index j ∧ j < i := by
  obtain ⟨slot, hv, hslot, hinner, hafter⟩ := setWithin_step hs h
  rw [hafter]
  exact ⟨⟨slot, hslot, hinner, get_around_self hs hv _⟩, fun t ht hts => get_around_of_ne hs ht hts v _⟩

/-! ## The frame -/

theorem get_cons_single (s : Step) (q : Path) (v : Value) :
    v.get (s :: q) = v.get [s] >>= fun part => part.get q := by
  rw [get_cons s q, get_cons s []]
  cases s.into v <;> rfl

/-- A bare dot is at home in maps only. -/
theorem get_dot {q : Path} {v w : Value} :
    v.get (.key "" :: q) = .ok w ↔ v.kind = .map ∧ v.get q = .ok w := by
  cases v <;> simp [get, kind]

theorem get_dot_of_map {v : Value} (hv : v.kind = .map) (q : Path) :
    v.get (.key "" :: q) = v.get q := by
  cases v with
  | map entries => rw [get, if_pos rfl]
  | _ => cases hv

/-- The induction is on the way that the two paths go together before they part. -/
theorem get_after_of_part {p q : Path} (hpq : Path.Part p q) {v : Value}
    (h : (setWithin grants new p v).error = none) :
    (∀ w, v.get q = .ok w → (setWithin grants new p v).after.get q = .ok w) ∧
    ∀ w, (setWithin grants new p v).after.get q = .ok w →
      v.get q = .ok w ∨ v.get q = .error .notFound ∧ w = .null ∧ Path.EndsBefore q p := by
  induction hpq generalizing v with
  | @here s t p q hs ht hts =>
    obtain ⟨-, hothers⟩ := get_step_after hs h
    rw [get_cons_single t q, get_cons_single t q]
    rcases hothers t ht hts with heq | ⟨hbefore, hafter, i, j, rfl, rfl, hji⟩
    · rw [heq]
      exact ⟨fun w hw => hw, fun w hw => .inl hw⟩
    · rw [hbefore, hafter]
      refine ⟨fun w hw => ?_, fun w hw => .inr ?_⟩
      · cases hw
      · obtain ⟨rfl, rfl⟩ := get_null hw
        refine ⟨rfl, rfl, [], i, j, Path.core p, ?_, ?_, hji⟩
        · rw [Path.core_cons hs, List.nil_append]
        · rw [Path.core_cons ht, Path.core_nil, List.nil_append]
  | @next s p q hs hpq ih =>
    obtain ⟨⟨slot, hslot, hinner, hafter⟩, -⟩ := get_step_after hs h
    obtain ⟨hkept, hnew⟩ := ih hinner
    rw [get_cons_single s q, get_cons_single s q, hafter]
    rcases hslot with hslot | ⟨hslot, rfl⟩
    · rw [hslot]
      refine ⟨fun w hw => hkept w hw, fun w hw => ?_⟩
      rcases hnew w hw with hw | ⟨hnone, hnull, hends⟩
      · exact .inl hw
      · exact .inr ⟨hnone, hnull, hends.next hs⟩
    · -- the slot is new, and of what was grown for the setting the other path finds only padding
      rw [hslot]
      refine ⟨fun w hw => ?_, fun w hw => ?_⟩
      · cases hw
      · rcases hnew w hw with hw | ⟨-, hnull, hends⟩
        · exact absurd ((blank_blankFor p).core_eq_nil hw) hpq.core_ne_nil.2
        · exact .inr ⟨rfl, hnull, hends.next hs⟩
  | @dotLeft p q hpq ih =>
    cases v with
    | map entries =>
      rw [setWithin, if_pos rfl] at h ⊢
      obtain ⟨hkept, hnew⟩ := ih h
      refine ⟨hkept, fun w hw => (hnew w hw).imp id ?_⟩
      rintro ⟨hnone, hnull, hends⟩
      exact ⟨hnone, hnull, hends.dotLeft⟩
    | _ => cases h
  | @dotRight p q hpq ih =>
    obtain ⟨hkept, hnew⟩ := ih h
    -- a setting below a value keeps its kind, so the dot is at home before and after or not at all
    have hkind : (setWithin grants new p v).after.kind = v.kind := kind_after hpq.core_ne_nil.1 v
    refine ⟨fun w hw => ?_, fun w hw => ?_⟩
    · obtain ⟨hmap, hw⟩ := get_dot.1 hw
      exact get_dot.2 ⟨hkind.trans hmap, hkept w hw⟩
    · obtain ⟨hmap, hw⟩ := get_dot.1 hw
      rw [get_dot_of_map (hkind.symm.trans hmap)]
      refine (hnew w hw).imp id ?_
      rintro ⟨hnone, hnull, hends⟩
      exact ⟨hnone, hnull, hends.dotRight⟩

/-- A setting touches only its own address, and a failed one nothing: what an independent path read
before, it reads afterwards. What it reads only afterwards is a null that a list was padded with. -/
theorem setWithin_touches_own_address (grants : Reservation) (new : Value) {p q : Path}
    (hpq : p.Independent q) (v : Value) :
    (∀ w, v.get q = .ok w → (setWithin grants new p v).after.get q = .ok w) ∧
    ∀ w, (setWithin grants new p v).after.get q = .ok w →
      v.get q = .ok w ∨ v.get q = .error .notFound ∧ w = .null ∧
        ∃ common i j rest, p.core = common ++ .index i :: rest ∧ q.core = common ++ [.index j] ∧
          j < i := by
  cases h : (setWithin grants new p v).error with
  | none => exact get_after_of_part hpq.part h
  | some e =>
    rw [after_eq_of_error h]
    exact ⟨fun w hw => hw, fun w hw => .inl hw⟩

theorem setWithin_touches_own_address_padding :
    let v : Value := .map [("a", .list [.bool true]), ("b", .null)]
    let p : Path := [.key "a", .index 3, .key "", .key "c"]
    let attempt := setWithin .standard (.int 1) p v
    attempt.error = none ∧ Path.Independent p [.key "", .key "b"] ∧
      attempt.after.get [.key "", .key "b"] = .ok .null ∧
      Path.Independent p [.key "a", .index 2] ∧ attempt.after.get [.key "a", .index 2] = .ok .null ∧
      v.get [.key "a", .index 2] = .error .notFound := by
  intro v p attempt
  have hset : attempt.error = none := by decide
  have hb : Path.Independent p [.key "", .key "b"] := by
    constructor <;> decide
  have hpad : Path.Independent p [.key "a", .index 2] := by
    constructor <;> decide
  have hafter : attempt.after.get [.key "a", .index 2] = .ok .null := rfl
  refine ⟨hset, hb, ?_, hpad, hafter, ?_⟩
  · exact (setWithin_touches_own_address .standard (.int 1) hb v).1 .null rfl
  · rcases (setWithin_touches_own_address .standard (.int 1) hpad v).2 .null hafter with h | h
    · cases h
    · exact h.1

end Value

end JsonSieve
