/-
Rendering is plain substitution. A template is cut into plain texts and placeholders in one way only,
whatever braces stand side by side: a mark is the first one that can be read (`existsUnique_parts`). Each
placeholder is replaced by the text of the value at its path, and what is put in its place is not read again;
a template with a placeholder that is no path or is not closed is refused for the first such placeholder.
-/
import JsonSieve.Proofs.Path.Pieces
import JsonSieve.Proofs.Text.Cut
import JsonSieve.Template

namespace JsonSieve

open Text (Precedes)

/-- What follows the longest row of steps that a text starts with. -/
def Path.LeftOver (s rest : Text) : Prop :=
  ∃ front, front ++ rest = s ∧ (∃ path : Path, path.Spelled front) ∧
    ∀ other, other <+: s → (∃ path : Path, path.Spelled other) → other.length ≤ front.length

/-- The text of a value that is put into a template: a string as it is, anything else in compact form. -/
def Value.bare : Value → Text
  | .string s => s.toList
  | v => v.compact

namespace Template

/-! ## Templates in parts -/

/-- A placeholder with the plain text in front of it. -/
structure Hole where
  before : Text
  inside : Text

/-- What a template ends in after its last closed placeholder: plain text, or plain text and a placeholder
that is not closed. -/
inductive Ending where
  | plain (s : Text)
  | unclosed (before inside : Text)

/-- The parts of a template. -/
structure Parts where
  holes : List Hole
  ending : Ending

namespace Hole

variable (hole : Hole)

def text : Text :=
  hole.before ++ opening ++ hole.inside ++ closing

/-- The marks of a placeholder are the first ones after the plain text and after its inside. -/
def Tight : Prop :=
  Precedes '{' hole.before ∧ Precedes '}' hole.inside

instance : Decidable hole.Tight :=
  inferInstanceAs (Decidable (_ ∧ _))

/-- What is inside a placeholder, without white space around it. -/
def expression : Text :=
  Text.trim Unicode.isBlank hole.inside

/-- A placeholder that can be filled: it asks for the whole value or for an explicit path. -/
def Explicit : Prop :=
  hole.expression = ['.'] ∨ ∃ path : Path, path.Spelled hole.expression

end Hole

namespace Ending

def text : Ending → Text
  | .plain s => s
  | .unclosed before inside => before ++ opening ++ inside

/-- Nothing but an unclosed placeholder is opened at the end. -/
def Tight : Ending → Prop
  | .plain s => ¬ opening <:+: s
  | .unclosed before inside => Precedes '{' before ∧ ¬ closing <:+: inside

instance : (ending : Ending) → Decidable ending.Tight
  | .plain _ => inferInstanceAs (Decidable (¬ _))
  | .unclosed _ _ => inferInstanceAs (Decidable (_ ∧ _))

end Ending

namespace Parts

variable (parts : Parts)

def text : Text :=
  parts.holes.flatMap Hole.text ++ parts.ending.text

/-- Every mark stands where it is read first. -/
def Tight : Prop :=
  (∀ hole ∈ parts.holes, hole.Tight) ∧ parts.ending.Tight

instance : Decidable parts.Tight :=
  inferInstanceAs (Decidable (_ ∧ _))

end Parts

variable {template s : Text} {hole : Hole} {holes : List Hole} {ending : Ending} {parts parts' : Parts}
  {v : Value} {path : Path}

/-! ## Scanning -/

theorem scan_hole (h : hole.Tight) (rest : Text) :
    scan (hole.text ++ rest) = .placeholder hole.before hole.inside rest := by
  obtain ⟨hbefore, hinside⟩ := h
  have hopen : Text.cutAt? opening (hole.text ++ rest) = some (hole.before, hole.inside ++ closing ++ rest) :=
    Text.cutAt?_mark_eq_some_iff.2 ⟨by simp [Hole.text, opening], hbefore⟩
  have hclose : Text.cutAt? closing (hole.inside ++ closing ++ rest) = some (hole.inside, rest) :=
    Text.cutAt?_mark_eq_some_iff.2 ⟨rfl, hinside⟩
  simp only [scan, hopen, hclose]

theorem cutAt?_unclosed {before inside : Text} (h : (Ending.unclosed before inside).Tight) :
    Text.cutAt? opening (Ending.unclosed before inside).text = some (before, inside) ∧
      Text.cutAt? closing inside = none :=
  ⟨Text.cutAt?_mark_eq_some_iff.2 ⟨rfl, h.1⟩, (Text.cutAt?_eq_none_iff (by decide)).2 h.2⟩

theorem scan_unclosed {before inside : Text} (h : (Ending.unclosed before inside).Tight) :
    scan (Ending.unclosed before inside).text = .unclosed := by
  obtain ⟨hopen, hclose⟩ := cutAt?_unclosed h
  simp only [scan, hopen, hclose]

theorem scan_plain (h : ¬ opening <:+: s) : scan s = .plain := by
  have hopen : Text.cutAt? opening s = none := (Text.cutAt?_eq_none_iff (by decide)).2 h
  simp only [scan, hopen]

/-- What a text is that has been scanned. -/
theorem spec_of_scan (s : Text) :
    match scan s with
    | .plain => (Ending.plain s).Tight
    | .unclosed => ∃ before inside, (Ending.unclosed before inside).Tight ∧
        (Ending.unclosed before inside).text = s
    | .placeholder before inside rest => (Hole.mk before inside).Tight ∧
        (Hole.mk before inside).text ++ rest = s := by
  unfold scan
  cases hopen : Text.cutAt? opening s with
  | none => exact (Text.cutAt?_eq_none_iff (by decide)).1 hopen
  | some cut =>
    obtain ⟨before, after⟩ := cut
    obtain ⟨rfl, hbefore⟩ := Text.cutAt?_mark_eq_some_iff.1 hopen
    dsimp only
    cases hclose : Text.cutAt? closing after with
    | none => exact ⟨before, after, ⟨hbefore, (Text.cutAt?_eq_none_iff (by decide)).1 hclose⟩, rfl⟩
    | some cut =>
      obtain ⟨inside, rest⟩ := cut
      obtain ⟨rfl, hinside⟩ := Text.cutAt?_mark_eq_some_iff.1 hclose
      exact ⟨⟨hbefore, hinside⟩, by simp [Hole.text, opening, closing]⟩

/-! ## Cutting a template -/

theorem Parts.text_cons (hole : Hole) (holes : List Hole) (ending : Ending) :
    Parts.text ⟨hole :: holes, ending⟩ = hole.text ++ Parts.text ⟨holes, ending⟩ := by
  simp only [Parts.text, List.flatMap_cons, List.append_assoc]

theorem exists_parts (s : Text) : ∃ parts : Parts, parts.Tight ∧ parts.text = s := by
  have hspec := spec_of_scan s
  match hs : scan s with
  | .plain =>
    rw [hs] at hspec
    exact ⟨⟨[], .plain s⟩, ⟨List.forall_mem_nil _, hspec⟩, rfl⟩
  | .unclosed =>
    rw [hs] at hspec
    obtain ⟨before, inside, htight, rfl⟩ := hspec
    exact ⟨⟨[], .unclosed before inside⟩, ⟨List.forall_mem_nil _, htight⟩, rfl⟩
  | .placeholder before inside rest =>
    rw [hs] at hspec
    obtain ⟨⟨holes, ending⟩, ⟨hholes, hending⟩, htext⟩ := exists_parts rest
    refine ⟨⟨⟨before, inside⟩ :: holes, ending⟩, ⟨List.forall_mem_cons.2 ⟨hspec.1, hholes⟩, hending⟩, ?_⟩
    rw [Parts.text_cons, htext, hspec.2]
termination_by s.length
decreasing_by exact length_of_scan hs

theorem ending_unique {ending' : Ending} (h : ending.Tight) (h' : ending'.Tight)
    (heq : ending.text = ending'.text) : ending = ending' := by
  have hcut := congrArg (Text.cutAt? opening) heq
  have hnone {s : Text} (hs : ¬ opening <:+: s) : Text.cutAt? opening s = none :=
    (Text.cutAt?_eq_none_iff (by decide)).2 hs
  cases ending with
  | plain s =>
    cases ending' with
    | plain s' => exact congrArg Ending.plain heq
    | unclosed before' inside' =>
      rw [(cutAt?_unclosed h').1, Ending.text, hnone h] at hcut
      cases hcut
  | unclosed before inside =>
    rw [(cutAt?_unclosed h).1] at hcut
    cases ending' with
    | plain s' => rw [Ending.text, hnone h'] at hcut; cases hcut
    | unclosed before' inside' => rw [(cutAt?_unclosed h').1] at hcut; cases hcut; rfl

/-- An ending is not scanned as a placeholder. -/
theorem scan_ending (h : ending.Tight) {before inside rest : Text} :
    scan ending.text ≠ .placeholder before inside rest := by
  cases ending with
  | plain s => rw [Ending.text, scan_plain h]; exact Scan.noConfusion
  | unclosed => rw [scan_unclosed h]; exact Scan.noConfusion

/-- The first placeholder of a template is the one that is scanned first. -/
theorem scan_parts_cons (h : Parts.Tight ⟨hole :: holes, ending⟩) :
    scan (Parts.text ⟨hole :: holes, ending⟩) =
      .placeholder hole.before hole.inside (Parts.text ⟨holes, ending⟩) := by
  rw [Parts.text_cons, scan_hole (h.1 hole List.mem_cons_self)]

theorem Parts.Tight.tail (h : Parts.Tight ⟨hole :: holes, ending⟩) : Parts.Tight ⟨holes, ending⟩ :=
  ⟨fun other hmem => h.1 other (List.mem_cons_of_mem _ hmem), h.2⟩

/-- A template is cut into parts in one way only. The induction is on the placeholders: the first ones are
those that are scanned first, and then the rests are the same. -/
theorem parts_unique (h : parts.Tight) (h' : parts'.Tight) (heq : parts.text = parts'.text) :
    parts = parts' := by
  obtain ⟨holes, ending⟩ := parts
  obtain ⟨holes', ending'⟩ := parts'
  have hscan := congrArg scan heq
  induction holes generalizing holes' with
  | nil =>
    cases holes' with
    | nil => exact congrArg (Parts.mk []) (ending_unique h.2 h'.2 heq)
    | cons hole' holes' =>
      rw [scan_parts_cons h'] at hscan
      exact absurd hscan (scan_ending h.2)
  | cons hole holes ih =>
    rw [scan_parts_cons h] at hscan
    cases holes' with
    | nil => exact absurd hscan.symm (scan_ending h'.2)
    | cons hole' holes' =>
      rw [scan_parts_cons h'] at hscan
      obtain ⟨hbefore, hinside, hrest⟩ := Scan.placeholder.inj hscan
      have hhole : hole = hole' := by cases hole; cases hole'; cases hbefore; cases hinside; rfl
      cases ih h.tail holes' h'.tail hrest (congrArg scan hrest)
      rw [hhole]

theorem existsUnique_parts (template : Text) : ∃! parts : Parts, parts.Tight ∧ parts.text = template := by
  obtain ⟨parts, htight, htext⟩ := exists_parts template
  exact ⟨parts, ⟨htight, htext⟩, fun parts' h => parts_unique h.1 htight (h.2.trans htext.symm)⟩

/-! ## Placeholders -/

/-- The text that stands for an expression when a template is rendered for a value: that of the whole value
for a point or nothing, and otherwise that of the value at the path, if the path leads to one. -/
inductive Shows (v : Value) (expression : Text) : Text → Prop
  | whole (h : expression = ['.'] ∨ expression = []) : Shows v expression v.bare
  | found {path : Path} {w : Value} (hdot : expression ≠ ['.']) (hpath : path.Spelled expression)
      (hget : v.get path = .ok w) : Shows v expression w.bare
  | missing {path : Path} {e : Error} (hdot : expression ≠ ['.']) (hpath : path.Spelled expression)
      (hget : v.get path = .error e) : Shows v expression []

theorem insertion_of_ok {w : Value} (h : v.get path = .ok w) : insertion v path = w.bare := by
  rw [insertion, h]
  cases w <;> rfl

theorem insertion_of_error {e : Error} (h : v.get path = .error e) : insertion v path = [] := by
  rw [insertion, h]

theorem pathOf_dot (h : hole.expression = ['.']) : pathOf hole.inside = .ok [] :=
  if_pos h

theorem pathOf_of_ne_dot (h : hole.expression ≠ ['.']) :
    pathOf hole.inside = Path.parse hole.expression :=
  if_neg h

/-- A placeholder that can be filled has a path, and the value at the path is shown in its place. -/
theorem pathOf_of_explicit (h : hole.Explicit) :
    ∃ path, pathOf hole.inside = .ok path ∧ ∀ v, Shows v hole.expression (insertion v path) := by
  by_cases hdot : hole.expression = ['.']
  · refine ⟨[], pathOf_dot hdot, fun v => ?_⟩
    have hget : v.get [] = .ok v := rfl
    rw [insertion_of_ok hget]
    exact .whole (.inl hdot)
  · obtain ⟨path, hpath⟩ := h.resolve_left hdot
    refine ⟨path, (pathOf_of_ne_dot hdot).trans (Path.parse_eq_ok_iff.2 hpath), fun v => ?_⟩
    cases hget : v.get path with
    | ok w => rw [insertion_of_ok hget]; exact .found hdot hpath hget
    | error e => rw [insertion_of_error hget]; exact .missing hdot hpath hget

/-- Any other placeholder is refused for what follows the longest path that its expression starts with. -/
theorem pathOf_of_not_explicit (h : ¬ hole.Explicit) :
    ∃ rest, Path.LeftOver hole.expression rest ∧
      pathOf hole.inside = .error (.illegal (.notExplicit (String.ofList rest))) := by
  obtain ⟨hdot, hnone⟩ := not_or.1 h
  obtain ⟨front, rest, hfront, hspelled, hlongest, herror⟩ := Path.parse_eq_error (not_exists.1 hnone)
  exact ⟨rest, ⟨front, hfront, hspelled, hlongest⟩, (pathOf_of_ne_dot hdot).trans herror⟩

/-! ## Rendering, part by part -/

theorem renderFrom_eq (template : Text) (v : Value) (s : Text) :
    renderFrom template v s =
      match scan s with
      | .plain => .ok s
      | .unclosed => .error (.illegal (.unclosedPlaceholder (String.ofList template)))
      | .placeholder before inside rest =>
        pathOf inside >>= fun path => renderFrom template v rest >>= fun tail =>
          .ok (before ++ insertion v path ++ tail) := by
  rw [renderFrom]
  split <;> rename_i hs <;> rw [hs]

theorem renderFrom_hole (template : Text) (v : Value) (h : hole.Tight) (rest : Text) :
    renderFrom template v (hole.text ++ rest) =
      pathOf hole.inside >>= fun path => renderFrom template v rest >>= fun tail =>
        .ok (hole.before ++ insertion v path ++ tail) := by
  rw [renderFrom_eq, scan_hole h]

/-- The plain texts in front of placeholders, each with the text that stands for the placeholder. -/
def fill (holes : List Hole) (texts : List Text) : Text :=
  (List.zipWith (fun hole s => hole.before ++ s) holes texts).flatten

/-- The placeholders that come first are filled, and then the rest is rendered. -/
theorem renderFrom_holes (template : Text) (v : Value) (htight : ∀ hole ∈ holes, hole.Tight)
    (hexplicit : ∀ hole ∈ holes, hole.Explicit) (rest : Text) :
    ∃ texts, List.Forall₂ (fun hole s => Shows v hole.expression s) holes texts ∧
      renderFrom template v (holes.flatMap Hole.text ++ rest) =
        renderFrom template v rest >>= fun tail => .ok (fill holes texts ++ tail) := by
  induction holes with
  | nil =>
    refine ⟨[], .nil, ?_⟩
    rw [List.flatMap_nil, List.nil_append]
    cases renderFrom template v rest <;> rfl
  | cons hole holes ih =>
    obtain ⟨hhole, htight⟩ := List.forall_mem_cons.1 htight
    obtain ⟨hfirst, hexplicit⟩ := List.forall_mem_cons.1 hexplicit
    obtain ⟨path, hpath, hshows⟩ := pathOf_of_explicit hfirst
    obtain ⟨texts, htexts, hrender⟩ := ih htight hexplicit
    refine ⟨insertion v path :: texts, .cons (hshows v) htexts, ?_⟩
    rw [List.flatMap_cons, List.append_assoc, renderFrom_hole template v hhole, hpath, hrender]
    cases renderFrom template v rest with
    | error e => rfl
    | ok tail => simp [fill, bind, Except.bind]

/-- A template is cut into plain texts and placeholders in one way only, and rendered with what the value has there in
the place of each, if all are closed and ask for a path or the whole value. Otherwise the first that does not is at
fault. -/
theorem render_substitutes (template : Text) :
    (∃! parts : Parts, parts.Tight ∧ parts.text = template) ∧
    ∀ holes ending, Parts.Tight ⟨holes, ending⟩ → Parts.text ⟨holes, ending⟩ = template → ∀ v,
      ((∀ hole ∈ holes, hole.Explicit) → ∀ last, ending = .plain last →
        ∃ texts, List.Forall₂ (fun hole s => Shows v hole.expression s) holes texts ∧
          render v template = .ok (fill holes texts ++ last)) ∧
      (∀ front hole back, holes = front ++ hole :: back → (∀ h ∈ front, h.Explicit) → ¬ hole.Explicit →
        ∃ rest, Path.LeftOver hole.expression rest ∧
          render v template = .error (.illegal (.notExplicit (String.ofList rest)))) ∧
      ((∀ hole ∈ holes, hole.Explicit) → ∀ before inside, ending = .unclosed before inside →
        render v template = .error (.illegal (.unclosedPlaceholder (String.ofList template)))) := by
  refine ⟨existsUnique_parts template, fun holes ending htight htext v => ⟨?_, ?_, ?_⟩⟩
  · rintro hexplicit last rfl
    obtain ⟨texts, htexts, hrender⟩ := renderFrom_holes template v htight.1 hexplicit last
    refine ⟨texts, htexts, ?_⟩
    have hlast : renderFrom template v last = .ok last := by rw [renderFrom_eq, scan_plain htight.2]
    rw [hlast] at hrender
    rw [render]
    exact (congrArg (renderFrom template v) htext.symm).trans hrender
  · rintro front hole back rfl hfront hbad
    obtain ⟨hfrontTight, hhole, -⟩ := List.forall_mem_append.1 htight.1 |>.imp_right List.forall_mem_cons.1
    obtain ⟨rest, hrest, hpath⟩ := pathOf_of_not_explicit hbad
    refine ⟨rest, hrest, ?_⟩
    obtain ⟨texts, -, hrender⟩ :=
      renderFrom_holes template v hfrontTight hfront (Parts.text ⟨hole :: back, ending⟩)
    have hsplit : front.flatMap Hole.text ++ Parts.text ⟨hole :: back, ending⟩ = template := by
      rw [← htext]
      simp [Parts.text]
    rw [hsplit, Parts.text_cons, renderFrom_hole template v hhole, hpath] at hrender
    exact hrender
  · rintro hexplicit before inside rfl
    obtain ⟨texts, -, hrender⟩ :=
      renderFrom_holes template v htight.1 hexplicit (Ending.unclosed before inside).text
    have hlast : renderFrom template v (Ending.unclosed before inside).text =
        .error (.illegal (.unclosedPlaceholder (String.ofList template))) := by
      rw [renderFrom_eq, scan_unclosed htight.2]
    rw [hlast] at hrender
    exact (congrArg (renderFrom template v) htext.symm).trans hrender

/-- Braces side by side and braces in the data, white space around a path, and a path that does not resolve;
and a name without a dot in front of a placeholder that is not closed. -/
theorem render_substitutes_side_by_side :
    let v : Value := .map [("a", .string "\x7b\x7b.b\x7d\x7d")]
    let holes : List Hole := [⟨"<\x7b ".toList, " .a ".toList⟩, ⟨['}'], ['.']⟩, ⟨[], ".c".toList⟩]
    let template : Text := "<\x7b \x7b\x7b .a \x7d\x7d\x7d\x7b\x7b.\x7d\x7d\x7b\x7b.c\x7d\x7d>".toList
    let named : Hole := ⟨[], ['x']⟩
    let refused : Text := "\x7b\x7b.a\x7d\x7d\x7b\x7bx\x7d\x7d\x7b\x7b\x7d".toList
    Parts.Tight ⟨holes, .plain ['>']⟩ ∧ Parts.text ⟨holes, .plain ['>']⟩ = template ∧
      (∀ hole ∈ holes, hole.Explicit) ∧
      (∃ texts, List.Forall₂ (fun hole s => Shows v hole.expression s) holes texts ∧
        render v template = .ok (fill holes texts ++ ['>'])) ∧
      render v template =
        .ok "<\x7b \x7b\x7b.b\x7d\x7d\x7d\x7b\"a\":\"\x7b\x7b.b\x7d\x7d\"\x7d>".toList ∧
      ¬ named.Explicit ∧ ∃ rest, Path.LeftOver named.expression rest ∧
        render v refused = .error (.illegal (.notExplicit (String.ofList rest))) := by
  intro v holes template named refused
  have explicit (hole : Hole) (path : Path) (h : Path.parse hole.expression = .ok path) : hole.Explicit :=
    .inr ⟨path, Path.parse_eq_ok_iff.1 h⟩
  have hname : Hole.Explicit ⟨[], ".a".toList⟩ := explicit _ [.key "a"] (by decide +kernel)
  have hholes : ∀ hole ∈ holes, hole.Explicit := by
    refine List.forall_mem_cons.2 ⟨explicit _ [.key "a"] (by decide +kernel), List.forall_mem_cons.2 ⟨.inl ?_, ?_⟩⟩
    · rfl
    · exact List.forall_mem_singleton.2 (explicit _ [.key "c"] (by decide +kernel))
  have hbad : ¬ named.Explicit := by
    rintro (hdot | ⟨path, hpath⟩)
    · exact absurd hdot (by decide)
    · have hparse : Path.parse named.expression = .error (.illegal (.notExplicit "x")) := by decide +kernel
      rw [Path.parse_eq_ok_iff.2 hpath] at hparse
      cases hparse
  have htight : Parts.Tight ⟨holes, .plain ['>']⟩ := by decide
  have htight' : Parts.Tight ⟨[⟨[], ".a".toList⟩, named], .unclosed [] ['}']⟩ := by decide
  have hrender : render v template =
      .ok "<\x7b \x7b\x7b.b\x7d\x7d\x7d\x7b\"a\":\"\x7b\x7b.b\x7d\x7d\"\x7d>".toList := by decide +kernel
  exact ⟨htight, rfl, hholes, ((render_substitutes template).2 _ _ htight rfl v).1 hholes _ rfl, hrender, hbad,
    ((render_substitutes refused).2 _ _ htight' rfl v).2.1 [⟨[], ".a".toList⟩] named [] rfl
      (List.forall_mem_singleton.2 hname) hbad⟩

end Template

end JsonSieve
