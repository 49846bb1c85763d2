/-
Values that differ only in the order in which the entries of maps are visited. Entries match if the same
keys are there with related contents (`Matched`), so what works on entries by look-up, or on each entry
by itself, keeps them matched. Printing sorts the entries and equality looks them up: neither tells two
such values apart.
-/
import JsonSieve.Proofs.Value.Entries
import JsonSieve.Proofs.Value.Equality
import JsonSieve.Proofs.Value.ReadBack

namespace JsonSieve

/-! ## Matching items and entries -/

/-- What comes of related items on both sides is related again. -/
theorem forall₂_join {α β γ δ : Type} {R : α → β → Prop} {P : α → γ → Prop} {Q : β → δ → Prop}
    {T : γ → δ → Prop} {xs : List α} {ys : List β} {os : List γ} {ps : List δ} (h : List.Forall₂ R xs ys)
    (hxs : List.Forall₂ P xs os) (hys : List.Forall₂ Q ys ps)
    (hjoin : ∀ x y o p, R x y → P x o → Q y p → T o p) : List.Forall₂ T os ps := by
  induction h generalizing os ps with
  | nil => cases hxs; cases hys; exact .nil
  | cons hxy _ ih =>
    cases hxs with
    | cons hxo hxs =>
      cases hys with
      | cons hyp hys => exact .cons (hjoin _ _ _ _ hxy hxo hyp) (ih hxs hys)

namespace Entries

variable {α β γ δ : Type} {R : α → β → Prop} {S : γ → δ → Prop} {es : Entries α} {fs : Entries β}
  {key : String} {x : α} {y : β}

theorem mem_keys_iff : key ∈ keys es ↔ (get? key es).isSome = true := by
  constructor
  · intro h
    cases hx : get? key es with
    | none => exact absurd h (notMem_keys_of_get? hx)
    | some x => rfl
  · intro h
    obtain ⟨x, hx⟩ := Option.isSome_iff_exists.1 h
    exact List.mem_map.2 ⟨_, mem_of_get? hx, rfl⟩

theorem nodup_keys_put (h : (keys es).Nodup) (key : String) (x : α) : (keys (put key x es)).Nodup := by
  cases hx : get? key es with
  | some y => rwa [keys_put hx]
  | none =>
    rw [put_of_get?_none hx, keys, List.map_append]
    refine List.nodup_append.2 ⟨h, List.nodup_singleton _, ?_⟩
    rintro k hk other hother rfl
    rw [List.mem_singleton.1 hother] at hk
    exact notMem_keys_of_get? hx hk

/-- The entries that a test passes, with what it makes of their contents. -/
def pick (test : String → α → Option γ) (es : Entries α) : Entries γ :=
  es.filterMap fun e => (test e.1 e.2).map (e.1, ·)

theorem pick_cons (test : String → α → Option γ) (e : String × α) (es : Entries α) :
    pick test (e :: es) =
      match test e.1 e.2 with
      | some z => (e.1, z) :: pick test es
      | none => pick test es := by
  rw [pick, List.filterMap_cons]
  cases test e.1 e.2 <;> rfl

theorem keys_pick_sublist (test : String → α → Option γ) (es : Entries α) :
    (keys (pick test es)).Sublist (keys es) := by
  induction es with
  | nil => exact List.Sublist.refl _
  | cons e es ih =>
    rw [pick_cons]
    cases test e.1 e.2 with
    | none => exact ih.cons _
    | some z => exact ih.cons_cons _

theorem get?_pick (h : (keys es).Nodup) (test : String → α → Option γ) (key : String) :
    get? key (pick test es) = (get? key es).bind (test key) := by
  induction es with
  | nil => rfl
  | cons e es ih =>
    obtain ⟨hnew, hrest⟩ := List.nodup_cons.1 h
    rw [pick_cons, get?]
    by_cases hk : e.1 = key
    · subst hk
      rw [if_pos rfl, Option.bind_some]
      cases ht : test e.1 e.2 with
      | some z => exact if_pos rfl
      | none =>
        -- no other entry has the key
        have hnone : get? e.1 (pick test es) = none := by
          rw [ih hrest]
          cases hx : get? e.1 es with
          | none => rfl
          | some x => exact absurd (List.mem_map.2 ⟨_, mem_of_get? hx, rfl⟩) hnew
        exact hnone
    · rw [if_neg hk]
      cases test e.1 e.2 with
      | some z => exact (if_neg hk).trans (ih hrest)
      | none => exact ih hrest

/-- The same keys, each of them once, and related contents under each. -/
structure Matched (R : α → β → Prop) (es : Entries α) (fs : Entries β) : Prop where
  left : (keys es).Nodup
  right : (keys fs).Nodup
  contents : ∀ key, Option.Rel R (get? key es) (get? key fs)

namespace Matched

theorem get?_cases (h : Matched R es fs) (key : String) :
    (get? key es = none ∧ get? key fs = none) ∨
      ∃ x y, get? key es = some x ∧ get? key fs = some y ∧ R x y := by
  have hrel := h.contents key
  generalize get? key es = a at hrel ⊢
  generalize get? key fs = b at hrel ⊢
  cases hrel with
  | none => exact .inl ⟨rfl, rfl⟩
  | some hxy => exact .inr ⟨_, _, rfl, rfl, hxy⟩

theorem symm (h : Matched R es fs) : Matched (fun y x => R x y) fs es := by
  refine ⟨h.right, h.left, fun key => ?_⟩
  rcases h.get?_cases key with ⟨hx, hy⟩ | ⟨x, y, hx, hy, hxy⟩
  · rw [hx, hy]; exact .none
  · rw [hx, hy]; exact .some hxy

theorem exists_right (h : Matched R es fs) {e : String × α} (he : e ∈ es) :
    ∃ y, get? e.1 fs = some y ∧ R e.2 y := by
  have he' := (get?_eq_some_iff h.left).2 he
  rcases h.get?_cases e.1 with ⟨hx, -⟩ | ⟨x, y, hx, hy, hxy⟩
  · rw [he'] at hx; cases hx
  · rw [he'] at hx; cases hx; exact ⟨y, hy, hxy⟩

theorem keys_perm (h : Matched R es fs) : (keys es).Perm (keys fs) := by
  refine (List.perm_ext_iff_of_nodup h.left h.right).2 fun key => ?_
  rw [mem_keys_iff, mem_keys_iff]
  rcases h.get?_cases key with ⟨hx, hy⟩ | ⟨x, y, hx, hy, -⟩
  · rw [hx, hy]; simp
  · rw [hx, hy]; simp

theorem length_eq (h : Matched R es fs) : es.length = fs.length := by
  simpa [keys] using h.keys_perm.length_eq

/-- Entries with the same contents under the same keys are the same but for their order. -/
theorem perm {fs : Entries α} (h : Matched (· = ·) es fs) : es.Perm fs := by
  refine (List.perm_ext_iff_of_nodup (List.Nodup.of_map _ h.left) (List.Nodup.of_map _ h.right)).2 ?_
  rintro ⟨key, x⟩
  rw [← get?_eq_some_iff h.left, ← get?_eq_some_iff h.right]
  rcases h.get?_cases key with ⟨hx, hy⟩ | ⟨x, y, hx, hy, rfl⟩
  · rw [hx, hy]
  · rw [hx, hy]

theorem put (h : Matched R es fs) (hxy : R x y) (key : String) :
    Matched R (Entries.put key x es) (Entries.put key y fs) := by
  refine ⟨nodup_keys_put h.left key x, nodup_keys_put h.right key y, fun other => ?_⟩
  by_cases hk : other = key
  · subst hk
    rw [get?_put_self, get?_put_self]
    exact .some hxy
  · rw [get?_put_of_ne hk, get?_put_of_ne hk]
    exact h.contents other

theorem pick (h : Matched R es fs) {f : String → α → Option γ} {g : String → β → Option δ}
    (hfg : ∀ key x y, (key, x) ∈ es → (key, y) ∈ fs → R x y → Option.Rel S (f key x) (g key y)) :
    Matched S (Entries.pick f es) (Entries.pick g fs) := by
  refine ⟨h.left.sublist (keys_pick_sublist f es), h.right.sublist (keys_pick_sublist g fs), fun key => ?_⟩
  rw [get?_pick h.left, get?_pick h.right]
  rcases h.get?_cases key with ⟨hx, hy⟩ | ⟨x, y, hx, hy, hxy⟩
  · rw [hx, hy]; exact .none
  · rw [hx, hy]; exact hfg key x y (mem_of_get? hx) (mem_of_get? hy) hxy

theorem map (h : Matched R es fs) {f : α → γ} {g : β → δ}
    (hfg : ∀ key x y, (key, x) ∈ es → (key, y) ∈ fs → R x y → S (f x) (g y)) :
    Matched S (es.map fun e => (e.1, f e.2)) (fs.map fun e => (e.1, g e.2)) := by
  refine ⟨by rw [keys_map]; exact h.left, by rw [keys_map]; exact h.right, fun key => ?_⟩
  rw [get?_map, get?_map]
  rcases h.get?_cases key with ⟨hx, hy⟩ | ⟨x, y, hx, hy, hxy⟩
  · rw [hx, hy]; exact .none
  · rw [hx, hy]; exact .some (hfg key x y (mem_of_get? hx) (mem_of_get? hy) hxy)

theorem trans {T : α → γ → Prop} {S : β → γ → Prop} {gs : Entries γ} (h : Matched R es fs)
    (h' : Matched S fs gs) (hRS : ∀ x y z, R x y → S y z → T x z) : Matched T es gs := by
  refine ⟨h.left, h'.right, fun key => ?_⟩
  rcases h.get?_cases key with ⟨hx, hy⟩ | ⟨x, y, hx, hy, hxy⟩
  · rcases h'.get?_cases key with ⟨-, hz⟩ | ⟨y, z, hy', -, -⟩
    · rw [hx, hz]; exact .none
    · rw [hy] at hy'; cases hy'
  · obtain ⟨z, hz, hyz⟩ := h'.exists_right (mem_of_get? hy)
    rw [hx, hz]
    exact .some (hRS x y z hxy hyz)

/-- What comes of matching contents on both sides matches again. -/
theorem join {P : α → γ → Prop} {Q : β → δ → Prop} {T : γ → δ → Prop} {os : Entries γ} {ps : Entries δ}
    (h : Matched R es fs) (hes : Matched P es os) (hfs : Matched Q fs ps)
    (hjoin : ∀ x y o p, R x y → P x o → Q y p → T o p) : Matched T os ps := by
  have hleft : Matched (fun o y => ∃ x, R x y ∧ P x o) os fs :=
    hes.symm.trans h fun o x y hxo hxy => ⟨x, hxy, hxo⟩
  exact hleft.trans hfs fun o y p ⟨x, hxy, hxo⟩ hyp => hjoin x y o p hxy hxo hyp

end Matched

/-- Outcomes for the contents of entries, the entries being visited in whatever order. -/
def Visited (R : α → β → Prop) (es : Entries α) (os : Entries β) : Prop :=
  ∃ visited : Entries α, visited.Perm es ∧
    List.Forall₂ (fun e o => e.1 = o.1 ∧ R e.2 o.2) visited os

namespace Visited

variable {os : Entries β}

theorem in_order {f : α → β} (h : ∀ e ∈ es, R e.2 (f e.2)) : Visited R es (es.map fun e => (e.1, f e.2)) :=
  ⟨es, .refl _, List.forall₂_map_right_iff.2 (List.forall₂_same.2 fun e he => ⟨rfl, h e he⟩)⟩

/-- The order does not show in what is found under a key. -/
theorem matched (hes : (keys es).Nodup) (h : Visited R es os) : Matched R es os := by
  obtain ⟨visited, hperm, hall⟩ := h
  have hvisited : (keys visited).Nodup := (hperm.map _).nodup_iff.2 hes
  have hkeys : keys visited = keys os := by
    clear hperm hvisited
    induction hall with
    | nil => rfl
    | cons hhead _ ih => exact congrArg₂ List.cons hhead.1 ih
  refine ⟨hes, hkeys ▸ hvisited, fun key => ?_⟩
  rw [← get?_perm hvisited hperm]
  clear hperm hvisited hkeys
  induction hall with
  | nil => exact .none
  | cons hhead _ ih =>
    obtain ⟨hkey, hcontents⟩ := hhead
    rw [get?, get?, hkey]
    split
    · exact .some hcontents
    · exact ih

end Visited

end Entries

/-! ## Values -/

namespace Value

open Entries (Matched)

/-- The same tree, where no map holds a key twice. -/
structure Alike (v w : Value) : Prop where
  tree : SameTree v w
  left : v.keysOnce = true
  right : w.keysOnce = true

variable {u v w x y : Value} {xs ys : List Value} {es fs : List (String × Value)}

theorem alike_list : Alike (.list xs) w ↔ ∃ ys, w = .list ys ∧ List.Forall₂ Alike xs ys := by
  constructor
  · rintro ⟨htree, hleft, hright⟩
    cases htree with
    | list hlength hitems =>
      rename_i ys
      refine ⟨ys, rfl, List.forall₂_iff_get.2 ⟨hlength, fun i hi hj => ⟨?_, ?_, ?_⟩⟩⟩
      · exact hitems i _ _ (List.getElem?_eq_getElem hi) (List.getElem?_eq_getElem hj)
      · exact keysOnce_list hleft _ (List.get_mem xs ⟨i, hi⟩)
      · exact keysOnce_list hright _ (List.get_mem ys ⟨i, hj⟩)
  · rintro ⟨ys, rfl, h⟩
    refine ⟨.list h.length_eq fun i x y hx hy => ?_, all_list.2 ⟨rfl, fun x hx => ?_⟩,
      all_list.2 ⟨rfl, fun y hy => ?_⟩⟩
    · obtain ⟨hi, rfl⟩ := List.getElem?_eq_some_iff.1 hx
      obtain ⟨hj, rfl⟩ := List.getElem?_eq_some_iff.1 hy
      exact (h.get hi hj).tree
    · obtain ⟨i, hi, rfl⟩ := List.mem_iff_getElem.1 hx
      exact (h.get hi (h.length_eq ▸ hi)).left
    · obtain ⟨i, hi, rfl⟩ := List.mem_iff_getElem.1 hy
      exact (h.get (h.length_eq ▸ hi) hi).right

theorem alike_map : Alike (.map es) w ↔ ∃ fs, w = .map fs ∧ Matched Alike es fs := by
  constructor
  · rintro ⟨htree, hleft, hright⟩
    cases htree with
    | map hkeys hcontents =>
      rename_i fs
      obtain ⟨hes, hleft⟩ := keysOnce_map hleft
      obtain ⟨hfs, hright⟩ := keysOnce_map hright
      refine ⟨fs, rfl, hes, hfs, fun key => ?_⟩
      have hmem := hkeys.mem_iff (a := key)
      rw [Entries.mem_keys_iff, Entries.mem_keys_iff] at hmem
      cases hx : Entries.get? key es with
      | none =>
        cases hy : Entries.get? key fs with
        | none => exact .none
        | some y => simp [hx, hy] at hmem
      | some x =>
        cases hy : Entries.get? key fs with
        | none => simp [hx, hy] at hmem
        | some y =>
          exact .some ⟨hcontents key x y hx hy, hleft _ (Entries.mem_of_get? hx),
            hright _ (Entries.mem_of_get? hy)⟩
  · rintro ⟨fs, rfl, h⟩
    refine ⟨.map h.keys_perm fun key x y hx hy => ?_,
      all_map.2 ⟨decide_eq_true h.left, fun e he => ?_⟩,
      all_map.2 ⟨decide_eq_true h.right, fun f hf => ?_⟩⟩
    · rcases h.get?_cases key with ⟨hx', -⟩ | ⟨x', y', hx', hy', hxy⟩
      · rw [hx] at hx'; cases hx'
      · rw [hx] at hx'; rw [hy] at hy'
        cases hx'; cases hy'
        exact hxy.tree
    · obtain ⟨y, -, hxy⟩ := h.exists_right he
      exact hxy.left
    · obtain ⟨x, -, hxy⟩ := h.symm.exists_right hf
      exact hxy.right

theorem Alike.list (h : List.Forall₂ Alike xs ys) : Alike (.list xs) (.list ys) :=
  alike_list.2 ⟨ys, rfl, h⟩

theorem Alike.map (h : Matched Alike es fs) : Alike (.map es) (.map fs) :=
  alike_map.2 ⟨fs, rfl, h⟩

theorem Alike.null : Alike .null .null :=
  ⟨.null, rfl, rfl⟩

theorem Alike.symm (h : Alike v w) : Alike w v := by
  induction v using parts_induction generalizing w with
  | list xs ih =>
    obtain ⟨ys, rfl, hall⟩ := alike_list.1 h
    refine .list (List.forall₂_iff_get.2 ⟨hall.length_eq.symm, fun i hi hj => ?_⟩)
    exact ih _ (List.get_mem xs ⟨i, hj⟩) (hall.get hj hi)
  | map es ih =>
    obtain ⟨fs, rfl, hall⟩ := alike_map.1 h
    refine .map ⟨hall.right, hall.left, fun key => ?_⟩
    rcases hall.get?_cases key with ⟨hx, hy⟩ | ⟨x, y, hx, hy, hxy⟩
    · rw [hx, hy]; exact .none
    · rw [hx, hy]; exact .some (ih _ (Entries.mem_of_get? hx) hxy)
  | null => cases h.tree; exact h
  | bool b => cases h.tree; exact h
  | int i => cases h.tree; exact h
  | float x => cases h.tree; exact h
  | string s => cases h.tree; exact h

theorem Alike.refl (h : v.keysOnce = true) : Alike v v := by
  induction v using parts_induction with
  | list xs ih => exact .list (List.forall₂_same.2 fun x hx => ih x hx (keysOnce_list h x hx))
  | map es ih =>
    obtain ⟨hnodup, hcontents⟩ := keysOnce_map h
    refine .map ⟨hnodup, hnodup, fun key => ?_⟩
    cases hx : Entries.get? key es with
    | none => exact .none
    | some x =>
      have hmem := Entries.mem_of_get? hx
      exact .some (ih _ hmem (hcontents _ hmem))
  | null => exact .null
  | bool b => exact ⟨.bool b, h, h⟩
  | int i => exact ⟨.int i, h, h⟩
  | float x => exact ⟨.float x, h, h⟩
  | string s => exact ⟨.string s, h, h⟩

theorem Alike.trans (h : Alike u v) (h' : Alike v w) : Alike u w := by
  induction u using parts_induction generalizing v w with
  | list xs ih =>
    obtain ⟨ys, rfl, hxs⟩ := alike_list.1 h
    obtain ⟨zs, rfl, hys⟩ := alike_list.1 h'
    refine .list (List.forall₂_iff_get.2 ⟨hxs.length_eq.trans hys.length_eq, fun i hi hj => ?_⟩)
    have hi' := hxs.length_eq ▸ hi
    exact ih _ (List.get_mem xs ⟨i, hi⟩) (hxs.get hi hi') (hys.get hi' hj)
  | map es ih =>
    obtain ⟨fs, rfl, hes⟩ := alike_map.1 h
    obtain ⟨gs, rfl, hfs⟩ := alike_map.1 h'
    refine .map ⟨hes.left, hfs.right, fun key => ?_⟩
    rcases hes.get?_cases key with ⟨hx, hy⟩ | ⟨x, y, hx, hy, hxy⟩
    · rcases hfs.get?_cases key with ⟨-, hz⟩ | ⟨y, z, hy', -, -⟩
      · rw [hx, hz]; exact .none
      · rw [hy] at hy'; cases hy'
    · obtain ⟨z, hz, hyz⟩ := hfs.exists_right (Entries.mem_of_get? hy)
      rw [hx, hz]
      exact .some (ih _ (Entries.mem_of_get? hx) hxy hyz)
  | null => cases h.tree; exact h'
  | bool b => cases h.tree; exact h'
  | int i => cases h.tree; exact h'
  | float x => cases h.tree; exact h'
  | string s => cases h.tree; exact h'

/-- A map with its entries in another order. -/
theorem Alike.of_perm (h : (Value.map es).keysOnce = true) (hperm : es.Perm fs) : Alike (.map es) (.map fs) := by
  obtain ⟨es', hes', hall⟩ := alike_map.1 (Alike.refl h)
  cases hes'
  refine .map ⟨hall.left, (hperm.map _).nodup_iff.1 hall.left, fun key => ?_⟩
  rw [← Entries.get?_perm hall.left hperm]
  exact hall.contents key

/-! ## Printing -/

/-- The text of a value does not depend on the order in which entries are visited. -/
theorem Alike.write_eq (h : Alike v w) (layout : Layout) (level : Nat) :
    v.write layout level = w.write layout level := by
  induction v using parts_induction generalizing w level with
  | list xs ih =>
    obtain ⟨ys, rfl, hall⟩ := alike_list.1 h
    have hitems : xs.map (write layout (level + 1)) = ys.map (write layout (level + 1)) := by
      refine List.ext_getElem (by simp [hall.length_eq]) fun i hi hj => ?_
      rw [List.length_map] at hi hj
      rw [List.getElem_map, List.getElem_map]
      exact ih _ (List.getElem_mem hi) (hall.get hi hj) _
    rw [write, write, writeItems_eq_map, writeItems_eq_map, hitems]
  | map es ih =>
    obtain ⟨fs, rfl, hall⟩ := alike_map.1 h
    have hmatched : Matched (· = ·) (writeEntries layout (level + 1) es) (writeEntries layout (level + 1) fs) := by
      rw [writeEntries_eq_map, writeEntries_eq_map]
      exact hall.map fun key x y hx _ hxy => ih (key, x) hx hxy _
    have hsorted : Entries.sorted (writeEntries layout (level + 1) es) =
        Entries.sorted (writeEntries layout (level + 1) fs) := by
      refine (Entries.ascending_sorted hmatched.left).eq_of_perm
        (Entries.ascending_sorted hmatched.right) ?_
      exact ((Entries.sorted_perm _).trans hmatched.perm).trans (Entries.sorted_perm _).symm
    rw [write, write, hsorted]
  | null => cases h.tree; rfl
  | bool b => cases h.tree; rfl
  | int i => cases h.tree; rfl
  | float x => cases h.tree; rfl
  | string s => cases h.tree; rfl

/-! ## Equality -/

theorem same_of_alike (hv : Alike v x) (hw : Alike w y) (h : same v w = true) : same x y = true := by
  induction v using parts_induction generalizing w x y with
  | list xs ih =>
    obtain ⟨xs', rfl, hxs⟩ := alike_list.1 hv
    cases w with
    | list ws =>
      obtain ⟨ws', rfl, hws⟩ := alike_list.1 hw
      have hall := sameItems_iff.1 h
      refine sameItems_iff.2 (List.forall₂_iff_get.2 ⟨?_, fun i hi hj => ?_⟩)
      · rw [← hxs.length_eq, ← hws.length_eq, hall.length_eq]
      · have hi' := hxs.length_eq ▸ hi
        have hj' := hws.length_eq ▸ hj
        exact ih _ (List.get_mem xs ⟨i, hi'⟩) (hxs.get hi' hi) (hws.get hj' hj) (hall.get hi' hj')
    | _ => cases h
  | map es ih =>
    obtain ⟨es', rfl, hes⟩ := alike_map.1 hv
    cases w with
    | map fs =>
      obtain ⟨fs', rfl, hfs⟩ := alike_map.1 hw
      obtain ⟨hlength, hall⟩ := same_map_iff.1 h
      refine same_map_iff.2 ⟨by rw [← hes.length_eq, ← hfs.length_eq, hlength], fun e' he' => ?_⟩
      obtain ⟨x, hx, hxx⟩ := hes.symm.exists_right he'
      obtain ⟨z, hz, hsame⟩ := hall _ (Entries.mem_of_get? hx)
      obtain ⟨z', hz', hzz⟩ := hfs.exists_right (Entries.mem_of_get? hz)
      exact ⟨z', hz', ih _ (Entries.mem_of_get? hx) hxx hzz hsame⟩
    | _ => cases h
  | null => cases hv.tree; cases w <;> cases h; cases hw.tree; rfl
  | bool b => cases hv.tree; cases w <;> cases hw.tree <;> exact h
  | int i => cases hv.tree; cases w <;> cases hw.tree <;> exact h
  | float x => cases hv.tree; cases w <;> cases hw.tree <;> exact h
  | string s => cases hv.tree; cases w <;> cases hw.tree <;> exact h

/-- Equality does not depend on the order in which entries are visited. -/
theorem Alike.same_eq (hv : Alike v x) (hw : Alike w y) : same v w = same x y := by
  rw [Bool.eq_iff_iff]
  exact ⟨same_of_alike hv hw, same_of_alike hv.symm hw.symm⟩

end Value

end JsonSieve
