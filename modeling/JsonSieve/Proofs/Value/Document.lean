/-
Values and their documents. A value is printed by itself, which sorts the entries of each map, or by way
of its document, which keeps the members of each object in order and has its own kind of numbers: the
compact texts are the same. And the value of its document is the value itself with null in the place of
each float that is not finite; a whole number stays one, and no entry is lost.
-/
import JsonSieve.Json.Basic
import JsonSieve.Proofs.Value.Order
import JsonSieve.Proofs.Value.Tree
import JsonSieve.Value.Document
import JsonSieve.Value.Printer

namespace JsonSieve

namespace Value

/-! ## Floats that are not finite -/

mutual

/-- The value with null in the place of each float that is not finite. -/
def nonFiniteAsNull : Value → Value
  | .float x => if x.isFinite then .float x else .null
  | .list items => .list (nonFiniteAsNullItems items)
  | .map entries => .map (nonFiniteAsNullEntries entries)
  | v => v

/-- The items of a list, each with null in the place of its floats that are not finite. -/
def nonFiniteAsNullItems : List Value → List Value
  | [] => []
  | x :: xs => nonFiniteAsNull x :: nonFiniteAsNullItems xs

/-- The entries of a map, each with null in the place of its floats that are not finite. -/
def nonFiniteAsNullEntries : List (String × Value) → List (String × Value)
  | [] => []
  | (key, x) :: rest => (key, nonFiniteAsNull x) :: nonFiniteAsNullEntries rest

end

/-! ## Parts one by one -/

/-- What treats the parts of a list one after the other maps them. -/
theorem eq_map_of_cons {α β : Type} {f : List α → List β} {g : α → β} (nil : f [] = [])
    (cons : ∀ x xs, f (x :: xs) = g x :: f xs) (xs : List α) : f xs = xs.map g := by
  induction xs with
  | nil => exact nil
  | cons x xs ih => rw [cons, ih, List.map_cons]

theorem writeItems_eq_map (layout : Layout) (level : Nat) (items : List Value) :
    writeItems layout level items = items.map (write layout level) :=
  eq_map_of_cons rfl (fun _ _ => rfl) items

theorem writeEntries_eq_map (layout : Layout) (level : Nat) (entries : List (String × Value)) :
    writeEntries layout level entries = entries.map fun e => (e.1, write layout level e.2) :=
  eq_map_of_cons rfl (fun _ _ => rfl) entries

/-- A map is written in ascending order of its keys. -/
theorem write_map (layout : Layout) (level : Nat) (entries : List (String × Value)) :
    (map entries).write layout level = layout.enclose level '\x7b' '\x7d'
      ((Entries.sorted entries).map fun e =>
        Json.quote e.1.toList ++ layout.colon ++ write layout (level + 1) e.2) := by
  rw [write, writeEntries_eq_map, Entries.sorted_map, List.map_map]
  rfl

theorem toJsonItems_eq_map (items : List Value) : toJsonItems items = items.map toJson :=
  eq_map_of_cons rfl (fun _ _ => rfl) items

theorem toJsonEntries_eq_map (entries : List (String × Value)) :
    toJsonEntries entries = entries.map fun e => (e.1, toJson e.2) :=
  eq_map_of_cons rfl (fun _ _ => rfl) entries

theorem ofJsonItems_eq_map (items : List Json) : ofJsonItems items = items.map ofJson :=
  eq_map_of_cons rfl (fun _ _ => rfl) items

theorem ofJsonMembers_eq_map (members : List (String × Json)) :
    ofJsonMembers members = members.map fun m => (m.1, ofJson m.2) :=
  eq_map_of_cons rfl (fun _ _ => rfl) members

theorem nonFiniteAsNullItems_eq_map (items : List Value) :
    nonFiniteAsNullItems items = items.map nonFiniteAsNull :=
  eq_map_of_cons rfl (fun _ _ => rfl) items

theorem nonFiniteAsNullEntries_eq_map (entries : List (String × Value)) :
    nonFiniteAsNullEntries entries = entries.map fun e => (e.1, nonFiniteAsNull e.2) :=
  eq_map_of_cons rfl (fun _ _ => rfl) entries

theorem compactItems_eq_map (items : List Json) : Json.compactItems items = items.map Json.compact :=
  eq_map_of_cons rfl (fun _ _ => rfl) items

theorem compactMembers_eq_map (members : List (String × Json)) :
    Json.compactMembers members = members.map fun m => Json.quote m.1.toList ++ ':' :: m.2.compact :=
  eq_map_of_cons rfl (fun _ _ => rfl) members

/-! ## Whole numbers -/

theorem int?_numberOfInt (i : Int64) : (numberOfInt i).int? = some i := by
  have hhigh : i.toInt ≤ Int64.maxValue.toInt := i.toInt_le
  have hmax : Int64.maxValue.toInt < UInt64.size := by decide
  unfold numberOfInt
  split
  · rfl
  · rename_i hpos
    have hnat : (UInt64.ofNat i.toInt.toNat).toNat = i.toInt.toNat :=
      UInt64.toNat_ofNat_of_lt' (by omega)
    have hint : (i.toInt.toNat : Int) = i.toInt := by omega
    rw [Json.Number.int?, hnat, hint, if_pos hhigh, Int64.ofInt_toInt]

theorem text_numberOfInt (i : Int64) : (numberOfInt i).text = Text.ofInt i.toInt := by
  have hhigh : i.toInt ≤ Int64.maxValue.toInt := i.toInt_le
  have hmax : Int64.maxValue.toInt < UInt64.size := by decide
  unfold numberOfInt
  split
  · rfl
  · rename_i hpos
    have hnat : (UInt64.ofNat i.toInt.toNat).toNat = i.toInt.natAbs := by
      rw [UInt64.toNat_ofNat_of_lt' (by omega)]
      omega
    rw [Json.Number.text, hnat, Text.ofInt, if_neg hpos]

/-! ## The value of the document -/

variable {v : Value}

theorem nonFiniteAsNull_of_floatsFinite (h : v.floatsFinite = true) : v.nonFiniteAsNull = v := by
  induction v using parts_induction with
  | float x => exact if_pos h
  | list items ih =>
    rw [nonFiniteAsNull, nonFiniteAsNullItems_eq_map]
    exact congrArg list ((List.map_congr_left fun x hx => ih x hx (floatsFinite_list h x hx)).trans
      (List.map_id' items))
  | map entries ih =>
    rw [nonFiniteAsNull, nonFiniteAsNullEntries_eq_map]
    refine congrArg map ((List.map_congr_left fun e he => ?_).trans (List.map_id' entries))
    rw [ih e he (floatsFinite_map h e he)]
  | null | bool | int | string => rfl

/-- The document of a map has its members in ascending order. -/
theorem toJson_map {entries : List (String × Value)} (h : (Entries.keys entries).Nodup) :
    (map entries).toJson = .object ((Entries.sorted entries).map fun e => (e.1, e.2.toJson)) := by
  rw [toJson, toJsonEntries_eq_map, Entries.ordered_eq_sorted (by rwa [Entries.keys_map]),
    Entries.sorted_map]

theorem ofJson_toJson_map {entries : List (String × Value)} (h : (Entries.keys entries).Nodup) :
    ofJson (map entries).toJson =
      .map ((Entries.sorted entries).map fun e => (e.1, ofJson e.2.toJson)) := by
  rw [toJson_map h, ofJson, ofJsonMembers_eq_map, List.map_map]
  rfl

/-- The document of a value has the value, as the same tree, but for what has no document. -/
theorem sameTree_nonFiniteAsNull (hkeys : v.keysOnce = true) :
    SameTree v.nonFiniteAsNull (ofJson v.toJson) := by
  induction v using parts_induction with
  | null => exact .null
  | bool b => exact .bool b
  | int i =>
    rw [toJson, ofJson, int?_numberOfInt]
    exact .int i
  | float x =>
    rw [nonFiniteAsNull, toJson]
    split
    · exact .float x
    · exact .null
  | string s => exact .string s
  | list items ih =>
    rw [toJson, ofJson, toJsonItems_eq_map, ofJsonItems_eq_map, List.map_map, nonFiniteAsNull,
      nonFiniteAsNullItems_eq_map]
    refine .list (by rw [List.length_map, List.length_map]) fun i x y hx hy => ?_
    rw [List.getElem?_map] at hx hy
    obtain ⟨z, hz, rfl⟩ := Option.map_eq_some_iff.1 hx
    rw [hz] at hy
    cases hy
    have hmem : z ∈ items := List.mem_of_getElem? hz
    exact ih z hmem (keysOnce_list hkeys z hmem)
  | map entries ih =>
    obtain ⟨hnodup, hcontents⟩ := keysOnce_map hkeys
    have hperm := (Entries.sorted_perm entries).symm
    rw [ofJson_toJson_map hnodup, nonFiniteAsNull, nonFiniteAsNullEntries_eq_map]
    refine .map ?_ fun key x y hx hy => ?_
    · rw [Entries.keys_map, Entries.keys_map (fun x : Value => ofJson x.toJson)]
      exact hperm.map _
    · rw [Entries.get?_map] at hx
      obtain ⟨z, hz, rfl⟩ := Option.map_eq_some_iff.1 hx
      rw [Entries.get?_map (fun x : Value => ofJson x.toJson), ← Entries.get?_perm hnodup hperm, hz] at hy
      cases hy
      have hmem := (Entries.get?_eq_some_iff hnodup).1 hz
      exact ih _ hmem (hcontents _ hmem)

theorem sameTree_ofJson (hkeys : v.keysOnce = true) (hfloats : v.floatsFinite = true) :
    SameTree v (ofJson v.toJson) := by
  have h := sameTree_nonFiniteAsNull hkeys
  rwa [nonFiniteAsNull_of_floatsFinite hfloats] at h

/-! ## The text of the document -/

/-- Without line breaks, parts between two marks are joined by commas alone. -/
theorem enclose_compact (level : Nat) (opening closing : Char) (parts : List Text) :
    Layout.compact.enclose level opening closing parts =
      opening :: Text.joinWith [','] parts ++ [closing] := by
  unfold Layout.enclose
  split
  · rename_i hnil
    rw [List.isEmpty_iff.1 hnil]
    rfl
  · have hmap : parts.map (Layout.compact.lineBreak (level + 1) ++ ·) = parts :=
      List.map_id' parts
    rw [hmap]
    exact congrArg (· ++ [closing]) (List.append_nil _)

/-- The induction is on the value; the compact layout is the same on all levels. -/
theorem compact_toJson (hkeys : v.keysOnce = true) (level : Nat) :
    v.toJson.compact = v.write .compact level := by
  induction v using parts_induction generalizing level with
  | null => rfl
  | bool b => cases b <;> rfl
  | int i => exact text_numberOfInt i
  | float x =>
    rw [toJson, write]
    split
    · rename_i hfinite
      exact if_pos hfinite
    · rfl
  | string s => rfl
  | list items ih =>
    rw [toJson, Json.compact, toJsonItems_eq_map, compactItems_eq_map, List.map_map, write,
      writeItems_eq_map, enclose_compact]
    have hitems : items.map (Json.compact ∘ toJson) = items.map (write .compact (level + 1)) :=
      List.map_congr_left fun x hx => ih x hx (keysOnce_list hkeys x hx) _
    rw [hitems]
  | map entries ih =>
    obtain ⟨hnodup, hcontents⟩ := keysOnce_map hkeys
    rw [toJson_map hnodup, Json.compact, compactMembers_eq_map, List.map_map, write_map, enclose_compact]
    refine congrArg (fun parts => '\x7b' :: Text.joinWith [','] parts ++ ['\x7d']) ?_
    refine List.map_congr_left fun e he => ?_
    have hmem := (Entries.sorted_perm entries).subset he
    simp only [Function.comp_apply, ih e hmem (hcontents e hmem) (level + 1), Layout.colon,
      List.append_assoc, List.singleton_append]

/-- A value that holds each key once is printed compactly by way of its document, whose members stand in
order, as it is printed by itself; and the document is turned back into the same tree with null in the
place of each float that is not finite. -/
theorem document_agrees (v : Value) (hkeys : v.keysOnce = true) :
    v.toJson.compact = v.compact ∧ SameTree v.nonFiniteAsNull (ofJson v.toJson) :=
  ⟨compact_toJson hkeys 0, sameTree_nonFiniteAsNull hkeys⟩

/-- Keys out of order, no number and both infinities, one as a float and as a whole number, and the least
whole number. -/
theorem document_agrees_not_finite :
    let v : Value := .map [("z", .float ⟨0x7FF8000000000000⟩),
      ("a", .list [.int 1, .float ⟨0x3FF0000000000000⟩, .int Int64.minValue, .float ⟨0x7FF0000000000000⟩]),
      ("", .map [("y", .null), ("b", .float ⟨0xFFF0000000000000⟩)])]
    v.keysOnce = true ∧ v.toJson.compact = v.compact ∧
      v.toJson.compact =
        "\x7b\"\":\x7b\"b\":null,\"y\":null\x7d,\"a\":[1,1.0,-9223372036854775808,null],\"z\":null\x7d".toList ∧
      SameTree (.map [("z", .null),
        ("a", .list [.int 1, .float ⟨0x3FF0000000000000⟩, .int Int64.minValue, .null]),
        ("", .map [("y", .null), ("b", .null)])]) (ofJson v.toJson) := by
  intro v
  have hkeys : v.keysOnce = true := by decide
  obtain ⟨htext, htree⟩ := document_agrees v hkeys
  exact ⟨hkeys, htext, by decide +kernel, htree⟩

end Value

end JsonSieve
