/-
Printing is canonical. The text of a value does not depend on the order in which the entries of its maps
are visited; in the text of every map the keys ascend by their bytes, each entry standing there once; and
the texts of two values with finite floats are equal only if the values are the same.
-/
import JsonSieve.Proofs.Json.Decoded
import JsonSieve.Proofs.Text.Bytes
import JsonSieve.Proofs.Value.Reordering
import JsonSieve.Proofs.Value.Within

namespace JsonSieve

/-! ## Texts of parts -/

theorem Text.infix_joinWith {s : Text} {parts : List Text} (h : s ∈ parts) (sep : Text) :
    s <:+: joinWith sep parts := by
  induction parts with
  | nil => cases h
  | cons t parts ih =>
    cases parts with
    | nil => rw [List.mem_singleton.1 h]; exact List.infix_refl t
    | cons u parts =>
      rw [joinWith, List.append_assoc]
      rcases List.mem_cons.1 h with rfl | h
      · exact (List.prefix_append s _).isInfix
      · exact (ih h).trans (List.append_assoc .. ▸ (List.suffix_append _ _).isInfix)

theorem Layout.infix_enclose {part : Text} {parts : List Text} (h : part ∈ parts) (layout : Layout)
    (level : Nat) (opening closing : Char) : part <:+: layout.enclose level opening closing parts := by
  have hne : ¬ parts.isEmpty = true := by
    rw [List.isEmpty_iff]
    exact List.ne_nil_of_mem h
  have hjoin := Text.infix_joinWith (List.mem_map_of_mem (f := (layout.lineBreak (level + 1) ++ ·)) h) [',']
  rw [enclose, if_neg hne, List.append_assoc, List.cons_append]
  exact (List.suffix_append _ part).isInfix.trans
    (hjoin.trans ((List.prefix_append _ _).isInfix.trans (List.suffix_cons _ _).isInfix))

namespace Value

variable {v w x : Value}

/-- The text of a part stands in the text of the value. -/
theorem Within.infix_write (h : Within x v) (layout : Layout) (level : Nat) :
    ∃ inner, x.write layout inner <:+: v.write layout level := by
  induction h generalizing level with
  | self => exact ⟨level, List.infix_refl _⟩
  | item hmem _ ih =>
    obtain ⟨inner, hinner⟩ := ih (level + 1)
    rw [write, writeItems_eq_map]
    exact ⟨inner, hinner.trans (Layout.infix_enclose (List.mem_map_of_mem hmem) ..)⟩
  | content hmem _ ih =>
    obtain ⟨inner, hinner⟩ := ih (level + 1)
    refine ⟨inner, hinner.trans ?_⟩
    rw [write_map]
    have hpart := List.mem_map_of_mem
      (f := fun e : String × Value => Json.quote e.1.toList ++ layout.colon ++ write layout (level + 1) e.2)
      ((Entries.sorted_perm _).mem_iff.2 hmem)
    exact (List.suffix_append _ _).isInfix.trans (Layout.infix_enclose hpart ..)

/-! ## The value of a text -/

/-- The document of a value has the value, but for the order in which entries are visited. -/
theorem alike_ofJson (hkeys : v.keysOnce = true) (hfloats : v.floatsFinite = true) :
    Alike v (ofJson v.toJson) := by
  have hread := reads_write .compact 0 v.depth hkeys (floatsReadBack_nearest v) (Nat.le_refl _) [] Json.endsNumber_nil
  exact ⟨sameTree_ofJson hkeys hfloats, hkeys, (Json.decodes_of_readWithin hread).1⟩

/-- Equal texts are read as the same document, at whatever depth. -/
theorem toJson_eq_of_text_eq (hv : v.keysOnce = true) (hw : w.keysOnce = true) {layout : Layout}
    (h : v.text layout = w.text layout) : v.toJson = w.toJson := by
  have hleft := reads_write layout 0 (max v.depth w.depth) hv (floatsReadBack_nearest v) (Nat.le_max_left _ _) []
    Json.endsNumber_nil
  have hright := reads_write layout 0 (max v.depth w.depth) hw (floatsReadBack_nearest w) (Nat.le_max_right _ _) []
    Json.endsNumber_nil
  rw [show v.write layout 0 = w.write layout 0 from h, hright] at hleft
  exact (congrArg Prod.fst (Option.some.inj hleft)).symm

theorem alike_of_text_eq (hv : v.keysOnce = true) (hw : w.keysOnce = true)
    (hvfloats : v.floatsFinite = true) (hwfloats : w.floatsFinite = true) {layout : Layout}
    (h : v.text layout = w.text layout) : Alike v w := by
  have hback := (alike_ofJson hw hwfloats).symm
  rw [← toJson_eq_of_text_eq hv hw h] at hback
  exact (alike_ofJson hv hvfloats).trans hback

/-! ## Canonical texts -/

/-- Values that hold each key once have one text in either layout, in whatever order the entries of their
maps stand. Every map in a value is printed with its keys strictly ascending by their bytes, and each of
its entries once. And if all floats are finite, equal compact texts are texts of the same value. -/
theorem text_canonical (v : Value) (hv : v.keysOnce = true) :
    (∀ w, Alike v w → v.compact = w.compact ∧ v.pretty = w.pretty) ∧
    (∀ entries, Within (.map entries) v → ∃ arranged : Entries Value,
      arranged.Perm entries ∧
      arranged.Pairwise (fun a b => a.1.toUTF8.data.toList < b.1.toUTF8.data.toList) ∧
      ∀ layout, (∃ level, (Value.map entries).write layout level <:+: v.text layout) ∧
        ∀ level, (Value.map entries).write layout level = layout.enclose level '\x7b' '\x7d'
          (arranged.map fun e =>
            Json.quote e.1.toList ++ layout.colon ++ e.2.write layout (level + 1))) ∧
    (v.floatsFinite = true → ∀ w, w.keysOnce = true → w.floatsFinite = true → v.compact = w.compact →
      SameTree v w) := by
  refine ⟨fun w h => ⟨h.write_eq .compact 0, h.write_eq .pretty 0⟩, fun entries hwithin => ?_,
    fun hvfloats w hw hwfloats h => (alike_of_text_eq hv hw hvfloats hwfloats h).tree⟩
  have hascending := Entries.ascending_sorted (keysOnce_iff.1 hv entries hwithin)
  exact ⟨Entries.sorted entries, Entries.sorted_perm entries, hascending.imp Text.toUTF8_lt,
    fun layout => ⟨hwithin.infix_write layout 0, fun level => write_map layout level entries⟩⟩

/-- Two maps in another order each, one of them in the other, with a key that takes two bytes. -/
theorem text_canonical_two_orders :
    let inner : List (String × Value) := [("b", .null), ("a", .int 1)]
    let v : Value := .map [("é", .list [.map inner]), ("z\n", .float ⟨0x3FF8000000000000⟩)]
    let w : Value := .map [("z\n", .float ⟨0x3FF8000000000000⟩),
      ("é", .list [.map [("a", .int 1), ("b", .null)]])]
    v.keysOnce = true ∧ Alike v w ∧ v.compact = w.compact ∧ v.pretty = w.pretty ∧
      Within (.map inner) v ∧
      (∃ arranged : Entries Value, arranged.Perm inner ∧
        arranged.Pairwise (fun a b => a.1.toUTF8.data.toList < b.1.toUTF8.data.toList) ∧
        ∃ level, (Value.map inner).write .pretty level <:+: v.pretty) ∧
      v.floatsFinite = true ∧ w.keysOnce = true ∧ w.floatsFinite = true ∧ SameTree v w := by
  intro inner v w
  have hv : v.keysOnce = true := by decide
  have hinner : Alike (.list [.map inner]) (.list [.map [("a", .int 1), ("b", .null)]]) :=
    .list (.cons (.of_perm (by decide) (.swap ..)) .nil)
  have halike : Alike v w := by
    refine .map ⟨by decide, by decide, fun key => ?_⟩
    by_cases he : "é" = key
    · subst he; exact .some hinner
    · by_cases hz : "z\n" = key
      · subst hz; exact .some (.refl (by decide))
      · simp only [Entries.get?, if_neg he, if_neg hz]; exact .none
  have hwithin : Within (.map inner) v :=
    .content List.mem_cons_self (.item (List.mem_singleton_self _) .self)
  obtain ⟨horder, hprinted, hsame⟩ := text_canonical v hv
  obtain ⟨arranged, hperm, hascending, htexts⟩ := hprinted inner hwithin
  have hfloats : v.floatsFinite = true := by decide
  have hwfloats : w.floatsFinite = true := by decide
  exact ⟨hv, halike, (horder w halike).1, (horder w halike).2, hwithin,
    ⟨arranged, hperm, hascending, (htexts .pretty).1⟩, hfloats, halike.right, hwfloats,
    hsame hfloats w halike.right hwfloats (horder w halike).1⟩

end Value

end JsonSieve
