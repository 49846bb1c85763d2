/-
Values as trees: induction over the parts of a value, how deep its containers are nested, tests that
hold all through it, what occurs in it, and when two values are the same tree. Maps are unordered, so the
same tree may be visited in another order; everything else is the same, floats bit by bit.
-/
import JsonSieve.Proofs.Value.Entries
import JsonSieve.Value.Basic

namespace JsonSieve.Value

/-! ## Induction -/

/-- What holds of all scalars, and of a container if it holds of its parts, holds of all values. -/
@[elab_as_elim]
theorem parts_induction {motive : Value → Prop} (null : motive .null) (bool : ∀ b, motive (.bool b))
    (int : ∀ i, motive (.int i)) (float : ∀ x, motive (.float x)) (string : ∀ s, motive (.string s))
    (list : ∀ items, (∀ x ∈ items, motive x) → motive (.list items))
    (map : ∀ entries, (∀ e ∈ entries, motive e.2) → motive (.map entries)) : ∀ v, motive v
  | .null => null
  | .bool b => bool b
  | .int i => int i
  | .float x => float x
  | .string s => string s
  | .list items => list items fun x _ => parts_induction null bool int float string list map x
  | .map entries => map entries fun e _ => parts_induction null bool int float string list map e.2
termination_by v => sizeOf v
decreasing_by
  · rename_i hx
    have := List.sizeOf_lt_of_mem hx
    simp only [Value.list.sizeOf_spec]
    omega
  · rename_i he
    have := List.sizeOf_lt_of_mem he
    obtain ⟨key, x⟩ := e
    simp only [Value.map.sizeOf_spec, Prod.mk.sizeOf_spec] at this ⊢
    omega

/-! ## Depth -/

mutual

/-- How many containers are at most nested within each other. -/
def depth : Value → Nat
  | .list items => depthItems items + 1
  | .map entries => depthEntries entries + 1
  | _ => 0

/-- The greatest depth of the items of a list. -/
def depthItems : List Value → Nat
  | [] => 0
  | x :: xs => max (depth x) (depthItems xs)

/-- The greatest depth of the contents of a map. -/
def depthEntries : List (String × Value) → Nat
  | [] => 0
  | (_, x) :: rest => max (depth x) (depthEntries rest)

end

theorem depth_le_items {items : List Value} {x : Value} (hx : x ∈ items) :
    x.depth ≤ depthItems items := by
  induction items with
  | nil => cases hx
  | cons y items ih =>
    rw [depthItems]
    obtain rfl | hx := List.mem_cons.1 hx
    · exact Nat.le_max_left _ _
    · exact Nat.le_trans (ih hx) (Nat.le_max_right _ _)

theorem depthEntries_eq (entries : List (String × Value)) :
    depthEntries entries = depthItems (entries.map (·.2)) := by
  induction entries with
  | nil => rfl
  | cons e entries ih => rw [depthEntries, ih]; rfl

theorem depth_lt_list {items : List Value} {x : Value} (hx : x ∈ items) :
    x.depth < (list items).depth := by
  have := depth_le_items hx
  rw [depth]; omega

theorem depth_lt_map {entries : List (String × Value)} {e : String × Value} (he : e ∈ entries) :
    e.2.depth < (map entries).depth := by
  have := depth_le_items (List.mem_map_of_mem (f := (·.2)) he)
  rw [depth, depthEntries_eq]; omega

/-! ## Tests all through a value -/

mutual

/-- Whether a test holds of a value and of every value in it. -/
def all (test : Value → Bool) : Value → Bool
  | .list items => test (.list items) && allItems test items
  | .map entries => test (.map entries) && allEntries test entries
  | v => test v

/-- Whether a test holds all through every item of a list. -/
def allItems (test : Value → Bool) : List Value → Bool
  | [] => true
  | x :: xs => all test x && allItems test xs

/-- Whether a test holds all through every content of a map. -/
def allEntries (test : Value → Bool) : List (String × Value) → Bool
  | [] => true
  | (_, x) :: rest => all test x && allEntries test rest

end

variable {test : Value → Bool}

theorem allItems_eq (items : List Value) : allItems test items = items.all (all test) := by
  induction items with
  | nil => rfl
  | cons x items ih => rw [allItems, ih]; rfl

theorem allEntries_eq (entries : List (String × Value)) :
    allEntries test entries = entries.all fun e => all test e.2 := by
  induction entries with
  | nil => rfl
  | cons e entries ih => rw [allEntries, ih]; rfl

theorem all_list {items : List Value} :
    (list items).all test = true ↔ test (list items) = true ∧ ∀ x ∈ items, x.all test = true := by
  rw [all, allItems_eq, Bool.and_eq_true, List.all_eq_true]

theorem all_map {entries : List (String × Value)} :
    (map entries).all test = true ↔
      test (map entries) = true ∧ ∀ e ∈ entries, e.2.all test = true := by
  rw [all, allEntries_eq, Bool.and_eq_true, List.all_eq_true]

/-- Whether all floats of a value are finite. -/
def floatsFinite (v : Value) : Bool :=
  v.all fun
    | .float x => x.isFinite
    | _ => true

/-- Whether no float of a value is a pattern that stands for no number. -/
def withoutNaN (v : Value) : Bool :=
  v.all fun
    | .float x => !x.isNaN
    | _ => true

/-- Whether every map of a value holds each key once. -/
def keysOnce (v : Value) : Bool :=
  v.all fun
    | .map entries => (Entries.keys entries).Nodup
    | _ => true

theorem floatsFinite_list {items : List Value} (h : (list items).floatsFinite = true) :
    ∀ x ∈ items, x.floatsFinite = true :=
  (all_list.1 h).2

theorem floatsFinite_map {entries : List (String × Value)} (h : (map entries).floatsFinite = true) :
    ∀ e ∈ entries, e.2.floatsFinite = true :=
  (all_map.1 h).2

theorem withoutNaN_list {items : List Value} :
    (list items).withoutNaN = true ↔ ∀ x ∈ items, x.withoutNaN = true :=
  all_list.trans (and_iff_right rfl)

theorem withoutNaN_map {entries : List (String × Value)} :
    (map entries).withoutNaN = true ↔ ∀ e ∈ entries, e.2.withoutNaN = true :=
  all_map.trans (and_iff_right rfl)

theorem keysOnce_list {items : List Value} (h : (list items).keysOnce = true) :
    ∀ x ∈ items, x.keysOnce = true :=
  (all_list.1 h).2

theorem keysOnce_map {entries : List (String × Value)} (h : (map entries).keysOnce = true) :
    (Entries.keys entries).Nodup ∧ ∀ e ∈ entries, e.2.keysOnce = true :=
  ⟨of_decide_eq_true (all_map.1 h).1, (all_map.1 h).2⟩

/-! ## Parts -/

variable {v w x y : Value} {items : List Value} {entries : List (String × Value)}

/-- A value occurs in itself, and what occurs in an item or a content occurs in the container. -/
inductive Within (x : Value) : Value → Prop
  | self : Within x x
  | item {items : List Value} {y : Value} : y ∈ items → Within x y → Within x (.list items)
  | content {entries : List (String × Value)} {e : String × Value} :
      e ∈ entries → Within x e.2 → Within x (.map entries)

theorem Within.trans (h : Within x y) (h' : Within y v) : Within x v := by
  induction h' with
  | self => exact h
  | item hmem _ ih => exact .item hmem ih
  | content hmem _ ih => exact .content hmem ih

/-- A key of some map that occurs in the value. -/
def HasKey (key : String) (v : Value) : Prop :=
  ∃ entries, Within (.map entries) v ∧ key ∈ Entries.keys entries

/-- Whether a value is a list or a map. -/
def isContainer : Value → Bool
  | .list _ | .map _ => true
  | _ => false

/-- A test holds of every part of a value. -/
def Everywhere (test : Value → Prop) (v : Value) : Prop :=
  ∀ x, Within x v → test x

section Everywhere

variable {test : Value → Prop}

theorem everywhere_list :
    (list items).Everywhere test ↔ test (.list items) ∧ ∀ x ∈ items, x.Everywhere test := by
  constructor
  · intro h
    exact ⟨h _ .self, fun x hx y hy => h y (.item hx hy)⟩
  · rintro ⟨hself, hitems⟩ x hx
    cases hx with
    | self => exact hself
    | item hmem hx => exact hitems _ hmem x hx

theorem everywhere_map :
    (map entries).Everywhere test ↔ test (.map entries) ∧ ∀ e ∈ entries, e.2.Everywhere test := by
  constructor
  · intro h
    exact ⟨h _ .self, fun e he y hy => h y (.content he hy)⟩
  · rintro ⟨hself, hcontents⟩ x hx
    cases hx with
    | self => exact hself
    | content hmem hx => exact hcontents _ hmem x hx

theorem everywhere_scalar (hv : v.isContainer = false) : v.Everywhere test ↔ test v := by
  constructor
  · exact fun h => h v .self
  · intro h x hx
    cases hx with
    | self => exact h
    | item => cases hv
    | content => cases hv

theorem all_iff_everywhere {test : Value → Bool} :
    v.all test = true ↔ v.Everywhere fun x => test x = true := by
  have scalar {x : Value} (hx : x.isContainer = false) (hall : x.all test = test x) :
      x.all test = true ↔ x.Everywhere fun x => test x = true := by
    rw [everywhere_scalar hx, hall]
  induction v using parts_induction with
  | list items ih =>
    rw [all_list, everywhere_list]
    exact and_congr_right fun _ => forall₂_congr ih
  | map entries ih =>
    rw [all_map, everywhere_map]
    exact and_congr_right fun _ => forall₂_congr ih
  | null => exact scalar rfl rfl
  | bool b => exact scalar rfl rfl
  | int i => exact scalar rfl rfl
  | float x => exact scalar rfl rfl
  | string s => exact scalar rfl rfl

end Everywhere

/-- Floats are finite just if each float that occurs is. -/
theorem floatsFinite_iff : v.floatsFinite = true ↔ ∀ x, Within (.float x) v → x.isFinite = true := by
  rw [floatsFinite, all_iff_everywhere]
  constructor
  · exact fun h x hx => h _ hx
  · intro h x hx
    cases x with
    | float x => exact h x hx
    | _ => rfl

theorem keysOnce_iff :
    v.keysOnce = true ↔ ∀ entries, Within (.map entries) v → (Entries.keys entries).Nodup := by
  rw [keysOnce, all_iff_everywhere]
  constructor
  · exact fun h entries he => of_decide_eq_true (h _ he)
  · intro h x hx
    cases x with
    | map entries => exact decide_eq_true (h entries hx)
    | _ => rfl

/-! ## The same tree -/

/-- Two values are the same tree if they are the same scalar, lists of the same trees in the same
places, or maps that have the same keys with the same tree under each. -/
inductive SameTree : Value → Value → Prop
  | null : SameTree .null .null
  | bool (b : Bool) : SameTree (.bool b) (.bool b)
  | int (i : Int64) : SameTree (.int i) (.int i)
  | float (x : Double) : SameTree (.float x) (.float x)
  | string (s : String) : SameTree (.string s) (.string s)
  | list {xs ys : List Value} (length : xs.length = ys.length)
      (items : ∀ (i : Nat) (x y : Value), xs[i]? = some x → ys[i]? = some y → SameTree x y) :
      SameTree (.list xs) (.list ys)
  | map {es fs : List (String × Value)} (keys : (Entries.keys es).Perm (Entries.keys fs))
      (contents : ∀ (key : String) (x y : Value), Entries.get? key es = some x →
        Entries.get? key fs = some y → SameTree x y) : SameTree (.map es) (.map fs)

theorem SameTree.refl (v : Value) : SameTree v v := by
  induction v using parts_induction with
  | null => exact .null
  | bool b => exact .bool b
  | int i => exact .int i
  | float x => exact .float x
  | string s => exact .string s
  | list items ih =>
    refine .list rfl fun i x y hx hy => ?_
    rw [hx] at hy
    cases hy
    exact ih x (List.mem_of_getElem? hx)
  | map entries ih =>
    refine .map (.refl _) fun key x y hx hy => ?_
    rw [hx] at hy
    cases hy
    exact ih (key, x) (Entries.mem_of_get? hx)

end JsonSieve.Value
