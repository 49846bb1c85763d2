/-
Reading documents, one form at a time: what a reader does with a text that starts like a word, a string,
a number or a container. All readers are described by `Reads`, which leaves open what follows the text,
so that the parts of a container are read where they stand, and the documents of a stream, each on lines
of its own, one after the other. No character of a quoted string is written with a quote in front, which
is why the first bare quote closes it.
-/
import JsonSieve.Proofs.Json.Numeral
import Mathlib.Data.List.DropRight

namespace JsonSieve.Json

/-! ## Quoted strings -/

theorem hexValue?_digitChar : ∀ n < 16, Text.hexValue? (Nat.digitChar n) = some n := by decide

/-- A control that is written by its code point. -/
theorem unitChar?_control {c : Char} (hc : c.toNat < 0x20) (rest : Text) :
    unitChar? ('0' :: '0' :: Nat.digitChar (c.toNat / 16) :: Nat.digitChar (c.toNat % 16) :: rest) =
      some (c, rest) := by
  have hunit : unit? ('0' :: '0' :: Nat.digitChar (c.toNat / 16) :: Nat.digitChar (c.toNat % 16) ::
      rest) = some (c.toNat, rest) := by
    have hzero : Text.hexValue? '0' = some 0 := by decide
    have hsum : ((0 * 16 + 0) * 16 + c.toNat / 16) * 16 + c.toNat % 16 = c.toNat := by omega
    simp only [unit?, hzero, hexValue?_digitChar _ (show c.toNat / 16 < 16 by omega),
      hexValue?_digitChar _ (show c.toNat % 16 < 16 by omega), Option.bind_eq_bind, Option.bind_some,
      hsum]
  have hleading : isLeading c.toNat = false := by
    simp [isLeading]; omega
  have htrailing : isTrailing c.toNat = false := by
    simp [isTrailing]; omega
  simp [unitChar?, hunit, hleading, htrailing]

/-- A character is read back from the way it is written. -/
theorem char?_escape (c : Char) (rest : Text) : char? (escape c ++ rest) = some (c, rest) := by
  unfold escape
  split
  case h_8 _ hquote hbackslash _ _ _ _ _ =>
    split
    · rename_i hcontrol
      exact unitChar?_control hcontrol rest
    · rename_i hplain
      have hbackslash : c ≠ '\\' := fun h => hbackslash h
      rw [List.singleton_append, char?]
      · rw [if_neg (by simp [hbackslash]; omega)]
      · rintro d s h -
        exact hbackslash h
  all_goals rfl

/-- A character is not written with a quote in front. -/
theorem escape_eq_cons (c : Char) : ∃ d s, escape c = d :: s ∧ d ≠ '"' := by
  unfold escape
  split
  case h_8 _ hquote _ _ _ _ _ _ =>
    split
    · exact ⟨_, _, rfl, by decide⟩
    · exact ⟨c, [], rfl, fun h => hquote h⟩
  all_goals exact ⟨_, _, rfl, by decide⟩

/-- A string is read back, if as many characters may be read as it has. -/
theorem unquoteWithin_escaped (s rest : Text) {fuel : Nat} (hfuel : s.length ≤ fuel) :
    unquoteWithin fuel (s.flatMap escape ++ '"' :: rest) = some (s, rest) := by
  induction s generalizing fuel with
  | nil => rw [List.flatMap_nil, List.nil_append, unquoteWithin]
  | cons c s ih =>
    obtain ⟨fuel, rfl⟩ := Nat.exists_eq_add_of_lt (Nat.lt_of_lt_of_le (Nat.zero_lt_succ s.length) hfuel)
    obtain ⟨d, t, hd, hquote⟩ := escape_eq_cons c
    rw [Nat.zero_add, List.flatMap_cons, List.append_assoc, unquoteWithin]
    · simp only [char?_escape, Option.bind_eq_bind, Option.bind_some,
        ih (Nat.le_of_succ_le_succ (by simpa using hfuel))]
    · intro u hu
      rw [hd, List.cons_append, List.cons.injEq] at hu
      exact hquote hu.1

theorem length_le_escaped (s : Text) : s.length ≤ (s.flatMap escape).length := by
  induction s with
  | nil => exact Nat.le_refl _
  | cons c s ih =>
    obtain ⟨d, t, hd, -⟩ := escape_eq_cons c
    simp only [List.flatMap_cons, hd, List.length_append, List.length_cons]
    omega

/-- A string is read back after its opening quote. -/
theorem unquote?_escaped (s rest : Text) :
    unquote? (s.flatMap escape ++ '"' :: rest) = some (s, rest) := by
  have hlen := length_le_escaped s
  exact unquoteWithin_escaped s rest (by rw [List.length_append]; omega)

theorem quote_append (s rest : Text) :
    quote s ++ rest = '"' :: (s.flatMap escape ++ '"' :: rest) := by
  simp [quote]

/-! ## Readers -/

variable {α β : Type} {s t rest : Text} {c : Char} {rounding : Rounding}

/-- A text of white space. -/
def Blank (s : Text) : Prop :=
  ∀ c ∈ s, isBlank c = true

theorem skipBlanks_append (h : Blank s) (t : Text) : skipBlanks (s ++ t) = skipBlanks t :=
  List.dropWhile_append_of_pos h

theorem skipBlanks_cons (h : isBlank c = false) (s : Text) : skipBlanks (c :: s) = c :: s :=
  List.dropWhile_cons_of_neg (by simp [h])

/-- White space ends a number. -/
theorem EndsNumber.append (hs : Blank s) (ht : EndsNumber t) : EndsNumber (s ++ t) := by
  cases s with
  | nil => exact ht
  | cons c s =>
    refine endsNumber_cons _ ?_
    have hc : isBlank c = true := hs c List.mem_cons_self
    simp only [isBlank, Bool.or_eq_true, beq_iff_eq] at hc
    obtain ((rfl | rfl) | rfl) | rfl := hc
    all_goals decide

/-- A reader reads `x` from a text, whatever follows it that does not carry a number on. -/
def Reads (part : Text → Option (α × Text)) (text : Text) (x : α) : Prop :=
  ∀ rest, EndsNumber rest → part (text ++ rest) = some (x, rest)

/-! ## Rows of parts -/

section Rows

variable {part : Text → Option (α × Text)} {closing : Char} {text : β → Text} {value : β → α}
  {space : Text} {items : List β}

theorem closing_spec (hc : closing = ']' ∨ closing = '}') (rest : Text) :
    isBlank closing = false ∧ closing ≠ ',' ∧ EndsNumber (closing :: rest) := by
  obtain rfl | rfl := hc
  · exact ⟨by decide, by decide, endsNumber_cons _ (by decide)⟩
  · exact ⟨by decide, by decide, endsNumber_cons _ (by decide)⟩

/-- The parts of a row are read one after the other up to the closing mark. -/
theorem partsWithin_joinWith (hc : closing = ']' ∨ closing = '}') (hspace : Blank space)
    (hread : ∀ b ∈ items, Reads part (text b) (value b)) (hne : items ≠ []) {fuel : Nat}
    (hfuel : items.length ≤ fuel) (rest : Text) :
    partsWithin part closing fuel
        (Text.joinWith [','] (items.map text) ++ (space ++ closing :: rest)) =
      some (items.map value, rest) := by
  obtain ⟨hblank, hcomma, hends⟩ := closing_spec hc rest
  induction items generalizing fuel with
  | nil => exact absurd rfl hne
  | cons b items ih =>
    obtain ⟨fuel, rfl⟩ : ∃ n, fuel = n + 1 := ⟨fuel - 1, by simp at hfuel; omega⟩
    have hb := hread b List.mem_cons_self
    cases items with
    | nil =>
      have hfirst := hb _ (hends.append hspace)
      simp [Text.joinWith, partsWithin, hfirst, skipBlanks_append hspace, skipBlanks_cons hblank]
    | cons b' items =>
      have hrest := ih (fun x hx => hread x (List.mem_cons_of_mem _ hx)) (by simp)
        (Nat.le_of_succ_le_succ hfuel)
      have hjoin : Text.joinWith [','] ((b :: b' :: items).map text) ++ (space ++ closing :: rest) =
          text b ++ ',' ::
            (Text.joinWith [','] ((b' :: items).map text) ++ (space ++ closing :: rest)) := by
        simp [Text.joinWith]
      rw [hjoin]
      generalize Text.joinWith [','] ((b' :: items).map text) ++ (space ++ closing :: rest) = tail
        at hrest ⊢
      -- the comma ends the first part and is no closing mark
      have hfirst := hb (',' :: tail) (endsNumber_cons _ (by decide))
      have hskip := skipBlanks_cons (show isBlank ',' = false by decide) tail
      simp [partsWithin, hfirst, hskip, hrest, Ne.symm hcomma]

theorem length_le_joinWith (ts : List Text) :
    ts.length ≤ (Text.joinWith [','] ts).length + 1 := by
  induction ts with
  | nil => simp
  | cons t ts ih =>
    cases ts with
    | nil => simp
    | cons t' ts => simp [Text.joinWith] at ih ⊢; omega

/-- A reader that reads nothing from a text whose first mark closes a row. -/
def FailsAt (part : Text → Option (α × Text)) (closing : Char) : Prop :=
  ∀ s, (skipBlanks s).head? = none ∨ (skipBlanks s).head? = some closing → part s = none

theorem parts_joinWith (hc : closing = ']' ∨ closing = '}') (hfails : FailsAt part closing)
    (hspace : Blank space) (hread : ∀ b ∈ items, Reads part (text b) (value b)) (hne : items ≠ [])
    (rest : Text) :
    parts part closing (Text.joinWith [','] (items.map text) ++ (space ++ closing :: rest)) =
      some (items.map value, rest) := by
  have hfuel : items.length ≤
      (Text.joinWith [','] (items.map text) ++ (space ++ closing :: rest)).length := by
    have hlen := length_le_joinWith (items.map text)
    simp only [List.length_map, List.length_append, List.length_cons] at hlen ⊢
    omega
  have hrow := partsWithin_joinWith hc hspace hread hne hfuel rest
  generalize Text.joinWith [','] (items.map text) ++ (space ++ closing :: rest) = s at hrow
  -- the row starts with a part, so neither the text nor the row is over
  have hstart : ¬ ((skipBlanks s).head? = none ∨ (skipBlanks s).head? = some closing) := by
    intro h
    cases hlen : s.length with
    | zero => rw [hlen] at hrow; cases hrow
    | succ n => rw [hlen, partsWithin, hfails s h] at hrow; cases hrow
  rw [parts]
  split
  · rename_i hnil
    exact absurd (.inl (by rw [hnil]; rfl)) hstart
  · rename_i d s' hcons
    rw [if_neg fun hd => hstart (.inr (by rw [hcons, hd]; rfl)), hrow]

theorem parts_nil (hc : closing = ']' ∨ closing = '}') (part : Text → Option (α × Text))
    (rest : Text) : parts part closing (closing :: rest) = some ([], rest) := by
  obtain ⟨hblank, -, -⟩ := closing_spec hc rest
  rw [parts, skipBlanks_cons hblank]
  exact if_pos rfl

end Rows

/-! ## Documents -/

/-- White space in front of a document is not looked at. -/
theorem readWithin_append (h : Blank s) (depth : Nat) (t : Text) :
    readWithin rounding depth (s ++ t) = readWithin rounding depth t := by
  rw [readWithin, readWithin, skipBlanks_append h]

theorem Reads.append_left {depth : Nat} {x : Json} (h : Reads (readWithin rounding depth) t x)
    (hs : Blank s) : Reads (readWithin rounding depth) (s ++ t) x := by
  intro rest hrest
  rw [List.append_assoc, readWithin_append hs, h rest hrest]

/-- No document starts with a closing mark. -/
theorem readWithin_failsAt (depth : Nat) : FailsAt (readWithin rounding depth) ']' := by
  rintro s (h | h)
  · rw [readWithin, List.head?_eq_none_iff.1 h]; rfl
  · obtain ⟨s', hs⟩ := List.head?_eq_some_iff.1 h
    rw [readWithin, hs]; rfl

theorem member?_failsAt (content : Text → Option (Json × Text)) : FailsAt (member? content) '}' := by
  rintro s (h | h)
  · rw [member?, List.head?_eq_none_iff.1 h]
  · obtain ⟨s', hs⟩ := List.head?_eq_some_iff.1 h
    rw [member?, hs]
    rfl

theorem reads_null (depth : Nat) : Reads (readWithin rounding depth) "null".toList .null := by
  rintro rest -
  cases depth <;> rfl

theorem reads_bool (depth : Nat) (b : Bool) :
    Reads (readWithin rounding depth) (if b then "true".toList else "false".toList) (.bool b) := by
  rintro rest -
  cases depth <;> cases b <;> rfl

theorem reads_string (depth : Nat) (s : String) :
    Reads (readWithin rounding depth) (quote s.toList) (.string s) := by
  rintro rest -
  have hread := unquote?_escaped s.toList rest
  rw [quote_append, readWithin, skipBlanks_cons (by decide)]
  simp [hread]

/-- What a number starts with is neither white space nor what another document starts with. -/
theorem ne_of_number_start (hc : c = '-' ∨ c.isDigit = true) :
    isBlank c = false ∧ ∀ d ∈ ['[', '{', '"', 'n', 't', 'f'], c ≠ d := by
  constructor
  · by_contra hblank
    simp only [isBlank, Bool.or_eq_true, beq_iff_eq, Bool.not_eq_false] at hblank
    obtain ((rfl | rfl) | rfl) | rfl := hblank
    all_goals revert hc; decide
  · rintro d hd rfl
    simp only [List.mem_cons, List.not_mem_nil, or_false] at hd
    obtain rfl | rfl | rfl | rfl | rfl | rfl := hd
    all_goals revert hc; decide

/-- The text of a numeral is read as the number that it denotes, and not at all if it denotes none. -/
theorem readWithin_numeral (depth : Nat) {n : Numeral} (hn : n.WellFormed) (hrest : EndsNumber rest) :
    readWithin rounding depth (n.text ++ rest) = (n.number? rounding).map fun x => (.number x, rest) := by
  have hread := numeral?_text hn hrest
  obtain ⟨c, s, htext, hc⟩ := head_text hn
  obtain ⟨hblank, hmark⟩ := ne_of_number_start hc
  rw [htext, List.cons_append] at hread ⊢
  rw [readWithin, skipBlanks_cons hblank]
  split
  case h_7 => cases hnumber : n.number? rounding <;> simp [hread, hnumber]
  all_goals
    rename_i h
    exact absurd (List.cons.inj h).1 (hmark _ (by simp))

theorem reads_numeral (depth : Nat) {n : Numeral} {x : Number} (hn : n.WellFormed)
    (hx : n.number? rounding = some x) : Reads (readWithin rounding depth) n.text (.number x) := by
  intro rest hrest
  rw [readWithin_numeral depth hn hrest, hx, Option.map_some]

/-- A numeral alone in a text, with white space around it, is the document of the number that it denotes. -/
theorem parse?_numeral (rounding : Rounding) {front back : Text} {n : Numeral} (hn : n.WellFormed)
    (hfront : Blank front) (hback : Blank back) :
    parse? rounding (front ++ (n.text ++ back)) = (n.number? rounding).map .number := by
  have hends : EndsNumber back := by simpa using endsNumber_nil.append hback
  have hskip : skipBlanks back = [] := by
    have h := skipBlanks_append hback []
    rwa [List.append_nil] at h
  unfold parse? readOne?
  rw [readWithin_append hfront, readWithin_numeral _ hn hends]
  cases n.number? rounding with
  | none => rfl
  | some x => simp [hskip]

theorem reads_member {depth : Nat} {x : Json} {space : Text} (h : Reads (readWithin rounding depth) t x)
    (hs : Blank s) (hspace : Blank space) (key : String) :
    Reads (member? (readWithin rounding depth)) (s ++ (quote key.toList ++ ':' :: space ++ t)) (key, x) := by
  intro rest hrest
  have hkey := unquote?_escaped key.toList (':' :: (space ++ (t ++ rest)))
  have hskip := skipBlanks_cons (show isBlank '"' = false by decide)
    (key.toList.flatMap escape ++ '"' :: ':' :: (space ++ (t ++ rest)))
  have hcolon := skipBlanks_cons (show isBlank ':' = false by decide) (space ++ (t ++ rest))
  simp only [List.append_assoc, List.cons_append, quote_append]
  simp only [member?, skipBlanks_append hs, hskip, hkey, hcolon, readWithin_append hspace, h rest hrest,
    Option.bind_eq_bind, Option.bind_some, String.ofList_toList]

/-! ## Streams -/

section Streams

variable {pre : Text} {json : Json}

variable {text : α → Text} {value : α → Json} {items : List α}

end Streams

end JsonSieve.Json
