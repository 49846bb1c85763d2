/-
Printed values are read back, if their doubles are. Both layouts are read as the document of the value,
whatever follows the text (`reads_write`); that document has the entries of every map in ascending order,
and its value is the printed one but for the order in which entries are visited (`sameTree_ofJson`).
-/
import JsonSieve.Proofs.Double.Notation
import JsonSieve.Proofs.Json.Reading
import JsonSieve.Proofs.Value.Document

namespace JsonSieve

variable {rounding : Json.Rounding}

/-! ## Doubles -/

namespace Double

variable {x : Double}

/-- The text of a double is read as that double, bit by bit. -/
def ReadsBack (rounding : Json.Rounding) (x : Double) : Prop :=
  Json.parse? rounding x.text = some (.number (.float x))

theorem readsBack_iff (hf : x.isFinite = true) :
    x.ReadsBack rounding ↔ x.numeral.number? rounding = some (.float x) := by
  have hblank : Json.Blank [] := List.forall_mem_nil _
  have hparse := Json.parse?_numeral rounding (numeral_wellFormed hf) hblank hblank
  rw [List.nil_append, List.append_nil, numeral_text] at hparse
  rw [ReadsBack, hparse]
  simp

/-- Where numbers are read as the nearest double, every finite double is read back. -/
theorem readsBack_nearest (hf : x.isFinite = true) : x.ReadsBack .nearest :=
  (readsBack_iff hf).2 (numeral_number? hf (nearest_numeral hf))

end Double

namespace Value

/-- The doubles that the text of a value shows are read back. -/
def FloatsReadBack (rounding : Json.Rounding) (v : Value) : Prop :=
  ∀ x, Within (.float x) v → x.isFinite = true → x.ReadsBack rounding

theorem floatsReadBack_nearest (v : Value) : v.FloatsReadBack .nearest :=
  fun _ _ => Double.readsBack_nearest

/-! ## Whole numbers -/

theorem number?_ofInt (i : Int64) :
    (Json.Numeral.ofInt i.toInt).number? rounding = some (numberOfInt i) := by
  have hlow : Int64.minValue.toInt ≤ i.toInt := i.minValue_le_toInt
  have hhigh : i.toInt ≤ Int64.maxValue.toInt := i.toInt_le
  have hmax : Int64.maxValue.toInt < UInt64.size := by decide
  rw [Json.Numeral.number?_ofInt rounding hlow (by omega), Int64.ofInt_toInt]
  rfl

/-! ## Layouts -/

open Json (Reads FailsAt readWithin)

theorem blank_lineBreak (layout : Layout) (level : Nat) : Json.Blank (layout.lineBreak level) := by
  intro c hc
  cases layout with
  | compact => cases hc
  | pretty =>
    obtain rfl | hc := List.mem_cons.1 hc
    · decide
    · rw [List.eq_of_mem_replicate hc]; decide

theorem colon_eq (layout : Layout) : ∃ space, Json.Blank space ∧ layout.colon = ':' :: space := by
  cases layout with
  | compact => exact ⟨[], by simp [Json.Blank], rfl⟩
  | pretty => exact ⟨[' '], by simp [Json.Blank]; decide, rfl⟩

/-- The parts that a layout puts between two marks are read up to the closing one. -/
theorem parts_enclose {α β : Type} {part : Text → Option (α × Text)} {closing : Char}
    {text : β → Text} {value : β → α} {items : List β} (layout : Layout) (level : Nat)
    (opening : Char) (hc : closing = ']' ∨ closing = '}') (hfails : FailsAt part closing)
    (hread : ∀ b ∈ items, Reads part (layout.lineBreak (level + 1) ++ text b) (value b))
    (rest : Text) :
    ∃ body, layout.enclose level opening closing (items.map text) ++ rest = opening :: body ∧
      Json.parts part closing body = some (items.map value, rest) := by
  by_cases hne : items = []
  · subst hne
    exact ⟨closing :: rest, rfl, Json.parts_nil hc part rest⟩
  · have hrow := Json.parts_joinWith hc hfails (blank_lineBreak layout level) hread hne rest
    refine ⟨_, ?_, hrow⟩
    simp [Layout.enclose, hne, Function.comp_def]

/-! ## Reading back -/

variable {v : Value} {items : List Value} {entries : List (String × Value)}

theorem reads_int (layout : Layout) (level depth : Nat) (i : Int64) :
    Reads (readWithin rounding depth) ((int i).write layout level) (int i).toJson := by
  rw [write, ← Json.Numeral.text_ofInt, toJson]
  exact Json.reads_numeral depth (Json.Numeral.wellFormed_ofInt _) (number?_ofInt i)

theorem reads_float (layout : Layout) (level depth : Nat) {x : Double}
    (hx : x.isFinite = true → x.ReadsBack rounding) :
    Reads (readWithin rounding depth) ((float x).write layout level) (float x).toJson := by
  rw [write, toJson]
  split
  · rename_i hf
    rw [← Double.numeral_text]
    exact Json.reads_numeral depth (Double.numeral_wellFormed hf) ((Double.readsBack_iff hf).1 (hx hf))
  · exact Json.reads_null depth

theorem reads_list (layout : Layout) (level depth : Nat)
    (hread : ∀ x ∈ items, Reads (readWithin rounding depth) (x.write layout (level + 1)) x.toJson) :
    Reads (readWithin rounding (depth + 1)) ((list items).write layout level) (list items).toJson := by
  rintro rest -
  obtain ⟨body, hbody, hparts⟩ := parts_enclose layout level '[' (.inl rfl)
    (Json.readWithin_failsAt depth)
    (fun x hx => (hread x hx).append_left (blank_lineBreak layout (level + 1))) rest
  rw [write, writeItems_eq_map, hbody, toJson, toJsonItems_eq_map]
  simp [readWithin, Json.skipBlanks_cons (show Json.isBlank '[' = false by decide), hparts]

theorem reads_map (layout : Layout) (level depth : Nat) (hnodup : (Entries.keys entries).Nodup)
    (hread : ∀ e ∈ entries, Reads (readWithin rounding depth) (e.2.write layout (level + 1)) e.2.toJson) :
    Reads (readWithin rounding (depth + 1)) ((map entries).write layout level) (map entries).toJson := by
  rintro rest -
  obtain ⟨space, hspace, hcolon⟩ := colon_eq layout
  have hmember : ∀ e ∈ Entries.sorted entries, Reads (Json.member? (readWithin rounding depth))
      (layout.lineBreak (level + 1) ++
        (Json.quote e.1.toList ++ layout.colon ++ write layout (level + 1) e.2))
      (e.1, e.2.toJson) := by
    intro e he
    rw [hcolon]
    exact Json.reads_member (hread e ((Entries.sorted_perm entries).subset he))
      (blank_lineBreak layout (level + 1)) hspace e.1
  obtain ⟨body, hbody, hparts⟩ := parts_enclose layout level '\x7b' (.inr rfl)
    (Json.member?_failsAt _) hmember rest
  -- the members are read in ascending order, in which the document has them
  have hordered : Entries.ordered (Entries.sorted (toJsonEntries entries)) =
      Entries.ordered (toJsonEntries entries) :=
    Entries.ordered_sorted (by rwa [toJsonEntries_eq_map, Entries.keys_map])
  rw [toJsonEntries_eq_map, Entries.sorted_map] at hordered
  rw [write_map, hbody, toJson, toJsonEntries_eq_map, ← hordered]
  simp [readWithin, Json.skipBlanks_cons (show Json.isBlank '\x7b' = false by decide), hparts]

/-- The text of a value is read as the document of the value, whatever follows the text. The induction
is on the value; each container uses up one level of what may still be opened. -/
theorem reads_write (layout : Layout) (level depth : Nat) (hkeys : v.keysOnce = true)
    (hfloats : v.FloatsReadBack rounding) (hdepth : v.depth ≤ depth) :
    Reads (readWithin rounding depth) (v.write layout level) v.toJson := by
  induction v using parts_induction generalizing level depth with
  | null => exact Json.reads_null depth
  | bool b =>
    cases b with
    | true => exact Json.reads_bool depth true
    | false => exact Json.reads_bool depth false
  | int i => exact reads_int layout level depth i
  | float x => exact reads_float layout level depth (hfloats x .self)
  | string s => exact Json.reads_string depth s
  | list items ih =>
    obtain ⟨depth, rfl⟩ := Nat.exists_eq_add_one.2 (Nat.lt_of_lt_of_le (Nat.succ_pos _) hdepth)
    refine reads_list layout level depth fun x hx =>
      ih x hx _ _ (keysOnce_list hkeys x hx) (fun y hy => hfloats y (.item hx hy)) ?_
    exact Nat.le_of_lt_succ (Nat.lt_of_lt_of_le (depth_lt_list hx) hdepth)
  | map entries ih =>
    obtain ⟨hnodup, hcontents⟩ := keysOnce_map hkeys
    obtain ⟨depth, rfl⟩ := Nat.exists_eq_add_one.2 (Nat.lt_of_lt_of_le (Nat.succ_pos _) hdepth)
    refine reads_map layout level depth hnodup fun e he =>
      ih e he _ _ (hcontents e he) (fun y hy => hfloats y (.content he hy)) ?_
    exact Nat.le_of_lt_succ (Nat.lt_of_lt_of_le (depth_lt_map he) hdepth)

/-- A text that is read as a document is the text of the value of the document. -/
theorem parse?_of_reads {s : Text} {json : Json} (h : Reads (readWithin rounding Json.depthLimit) s json) :
    parse? rounding s = some (ofJson json) := by
  have hread := h [] Json.endsNumber_nil
  rw [List.append_nil] at hread
  simp [parse?, Json.parse?, Json.readOne?, hread, Json.skipBlanks]

/-- A printed value is read back as the same tree from either layout, if its floats are finite and read
back themselves, its maps hold each key once and its containers are nested no deeper than documents may be. -/
theorem text_reads_back (rounding : Json.Rounding) (v : Value) (hfloats : v.floatsFinite = true)
    (hback : v.FloatsReadBack rounding) (hkeys : v.keysOnce = true) (hdepth : v.depth ≤ 127) :
    ∃ w, parse? rounding v.compact = some w ∧ parse? rounding v.pretty = some w ∧ v.SameTree w := by
  have hread (layout : Layout) : parse? rounding (v.text layout) = some (ofJson v.toJson) :=
    parse?_of_reads (reads_write layout 0 Json.depthLimit hkeys hback hdepth)
  exact ⟨ofJson v.toJson, hread .compact, hread .pretty, sameTree_ofJson hkeys hfloats⟩

/-- Keys out of order with characters that must be marked, zero with its sign, the least and the
greatest double, and the least whole number. -/
theorem text_reads_back_marked :
    let v : Value := .map [("z\n\"\\", .list [.float ⟨0x8000000000000000⟩, .float ⟨1⟩,
        .float ⟨0x7FEFFFFFFFFFFFFF⟩, .int Int64.minValue, .list [], .map []]),
      ("", .map [("é😀", .string "\x01\t/"), ("a", .null)])]
    v.floatsFinite = true ∧ v.FloatsReadBack .nearest ∧ v.keysOnce = true ∧ v.depth ≤ 127 ∧
      ∃ w, parse? .nearest v.compact = some w ∧ parse? .nearest v.pretty = some w ∧ v.SameTree w := by
  intro v
  have hfloats : v.floatsFinite = true := by decide
  have hkeys : v.keysOnce = true := by decide
  have hdepth : v.depth ≤ 127 := by decide
  have hback : v.FloatsReadBack .nearest := floatsReadBack_nearest v
  exact ⟨hfloats, hback, hkeys, hdepth, text_reads_back .nearest v hfloats hback hkeys hdepth⟩

end Value

end JsonSieve
