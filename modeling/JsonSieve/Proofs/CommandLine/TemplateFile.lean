/-
A template file stands for its text. The arguments around a directive are read in the same way whatever the
directive says, so the two command lines ask for the same options but for this directive. Their chains name
the same template files besides, and part only where a chain ends in the form at that place, which shows a
value in the same text either way.
-/
import JsonSieve.Proofs.CommandLine.Records
import JsonSieve.Proofs.CommandLine.Rendering

namespace JsonSieve.CommandLine

variable {host : Host} {files : Files} {name text : Text}

/-! ## Reading arguments around a directive -/

namespace Progress

variable {p : Progress} {arg : Text}

/-- The same progress with directives that have been read before. -/
def behind (directives : List Text) (p : Progress) : Progress :=
  { p with options.directives := directives ++ p.options.directives }

theorem behind_addDirective (directives : List Text) (p : Progress) (text : Text) :
    (p.behind directives).addDirective text = (p.addDirective text).behind directives := by
  simp only [addDirective, behind, List.append_assoc]

theorem assign_behind (directives : List Text) (p : Progress) (value : Text) (option : Valued) :
    (p.behind directives).assign value option = behind directives <$> p.assign value option := by
  cases option with
  | input => unfold assign behind; dsimp only; split <;> rfl
  | logLevel => unfold assign behind; dsimp only; split <;> rfl

theorem setCompact_behind (directives : List Text) (p : Progress) :
    (p.behind directives).setCompact = behind directives <$> p.setCompact := by
  unfold setCompact behind
  dsimp only
  split <;> rfl

theorem readLong_behind (directives : List Text) (p : Progress) (name : Text) (value : Option Text) :
    (p.behind directives).readLong name value = behind directives <$> p.readLong name value := by
  unfold readLong
  dsimp only
  split
  case h_1 =>
    split
    · exact assign_behind directives p _ .input
    · rfl
  case h_2 =>
    split
    · exact assign_behind directives p _ .logLevel
    · rfl
  case h_3 => exact setCompact_behind directives p
  all_goals rfl

/-- The induction is on the short names. -/
theorem readShort_behind (directives : List Text) (p : Progress) (short : Text) :
    (p.behind directives).readShort short = behind directives <$> p.readShort short := by
  fun_induction readShort p short with
  | case1 p => rfl
  | case2 p rest ih =>
    rw [readShort, setCompact_behind]
    cases hp : p.setCompact with
    | error stop => rfl
    | ok q => exact ih q
  | case3 p => rfl
  | case4 p value => exact assign_behind directives p value .input
  | case5 p value hempty hequals =>
    rw [readShort]
    · exact assign_behind directives p value .input
    · exact hempty
    · exact hequals
  | case6 p => rfl
  | case7 p => rfl
  | case8 short p =>
    rw [readShort]
    · rfl
    all_goals assumption

/-- What an argument does to what has been read does not depend on the directives before it. -/
theorem read_behind (directives : List Text) (p : Progress) (arg : Text) :
    (p.behind directives).read arg = behind directives <$> p.read arg := by
  have hadd (text : Text) : Except.ok ((p.behind directives).addDirective text) =
      behind directives <$> (.ok (p.addDirective text) : Except Stop Progress) :=
    congrArg Except.ok (behind_addDirective directives p text)
  unfold read
  by_cases hp : p.onlyDirectives = true
  · rw [if_pos hp, if_pos (show (p.behind directives).onlyDirectives = true from hp)]
    exact hadd arg
  · rw [if_neg hp, if_neg (show ¬(p.behind directives).onlyDirectives = true from hp),
      show (p.behind directives).awaiting = p.awaiting from rfl]
    split
    case h_1 option _ => exact assign_behind directives p ['-'] option
    case h_2 => rfl
    case h_3 => exact assign_behind directives p _ _
    case h_4 => rfl
    case h_5 long _ _ =>
      split
      · exact readLong_behind directives p _ _
      · exact readLong_behind directives p long none
    case h_6 => exact hadd ['-']
    case h_7 short _ _ _ _ => exact readShort_behind directives p short
    case h_8 => exact hadd _

theorem foldlM_behind (directives : List Text) (p : Progress) (args : List Text) :
    args.foldlM read (p.behind directives) = behind directives <$> args.foldlM read p := by
  induction args generalizing p with
  | nil => rfl
  | cons arg args ih =>
    rw [List.foldlM_cons, List.foldlM_cons, read_behind]
    cases p.read arg with
    | error stop => rfl
    | ok q => exact ih q

/-- What does not look like an option is a directive, unless an option waits for its value. -/
theorem read_directive (hp : p.onlyDirectives = true ∨ p.awaiting = none) (harg : arg.head? ≠ some '-') :
    p.read arg = .ok (p.addDirective arg) := by
  unfold read
  by_cases honly : p.onlyDirectives = true
  · rw [if_pos honly]
  · have hdash (s : Text) : arg ≠ '-' :: s := by
      rintro rfl
      exact harg rfl
    rw [if_neg honly, hp.resolve_left honly]
    split
    case h_3 hawaits _ _ => cases hawaits
    case h_8 => rfl
    all_goals exact absurd rfl (hdash _)

end Progress

/-- After these arguments no option waits for its value. -/
def ExpectsDirective (front : List Text) : Prop :=
  ∀ p, front.foldlM Progress.read {} = .ok p → p.onlyDirectives = true ∨ p.awaiting = none

/-- Arguments around a directive stop the program whatever the directive says, or give options that
have it between the same others. -/
theorem parse_around {front : List Text} (hfront : ExpectsDirective front) (back : List Text) :
    (∃ stop, ∀ arg : Text, arg.head? ≠ some '-' → Options.parse (front ++ arg :: back) = .error stop) ∨
    ∃ (options : Options) (before after : List Text), ∀ arg : Text, arg.head? ≠ some '-' →
      Options.parse (front ++ arg :: back) = .ok { options with directives := before ++ arg :: after } := by
  have hparse (arg : Text) : Options.parse (front ++ arg :: back) = (do
      let p ← front.foldlM Progress.read {}
      let q ← p.read arg
      let r ← back.foldlM Progress.read q
      if r.awaiting.isSome then .error .misuse else .ok r.options) := by
    unfold Options.parse
    simp only [List.foldlM_append, List.foldlM_cons, bind_assoc]
  cases hp : front.foldlM Progress.read {} with
  | error stop => exact .inl ⟨stop, fun arg _ => by rw [hparse, hp]; rfl⟩
  | ok p =>
    let directives := p.options.directives
    let rest : Progress := { p with options.directives := [] }
    have hadd (arg : Text) : p.addDirective arg = rest.behind (directives ++ [arg]) := by
      simp only [Progress.addDirective, Progress.behind, rest, directives, List.append_nil]
    have hread (arg : Text) (harg : arg.head? ≠ some '-') : Options.parse (front ++ arg :: back) = (do
        let r ← Progress.behind (directives ++ [arg]) <$> back.foldlM Progress.read rest
        if r.awaiting.isSome then .error .misuse else .ok r.options) := by
      rw [hparse, hp]
      show (p.read arg >>= _) = _
      rw [Progress.read_directive (hfront p hp) harg, hadd, ← Progress.foldlM_behind]
      rfl
    cases hr : back.foldlM Progress.read rest with
    | error stop => exact .inl ⟨stop, fun arg harg => by rw [hread arg harg, hr]; rfl⟩
    | ok r =>
      by_cases hwaits : r.awaiting.isSome = true
      · exact .inl ⟨.misuse, fun arg harg => by rw [hread arg harg, hr]; exact if_pos hwaits⟩
      · refine .inr ⟨r.options, directives, r.options.directives, fun arg harg => ?_⟩
        rw [hread arg harg, hr]
        refine (if_neg hwaits).trans ?_
        simp only [Progress.behind, List.append_assoc, List.singleton_append]

/-! ## Chains that differ in one output form -/

section Chains

variable {layout : Layout} {chain other : List Directive} {f g : Output}

/-- Directives around one fail to be read whatever it says, or stand around it in the chain. -/
theorem readDirectives_around (before after : List Text) :
    (∃ failure, ∀ text d, Directive.parse text = .ok d →
      readDirectives (before ++ text :: after) = .error failure) ∨
    ∃ front back, ∀ text d, Directive.parse text = .ok d →
      readDirectives (before ++ text :: after) = .ok (front ++ d :: back) := by
  induction before with
  | nil =>
    cases hafter : readDirectives after with
    | error failure =>
      exact .inl ⟨failure, fun text d hd => by rw [List.nil_append, readDirectives, hd, hafter]; rfl⟩
    | ok back =>
      exact .inr ⟨[], back, fun text d hd => by rw [List.nil_append, readDirectives, hd, hafter]; rfl⟩
  | cons first before ih =>
    cases hfirst : Directive.parse first with
    | error e => exact .inl ⟨.badDirective first e, fun text d _ => by rw [List.cons_append, readDirectives, hfirst]⟩
    | ok directive =>
      rcases ih with ⟨failure, hread⟩ | ⟨front, back, hread⟩
      · refine .inl ⟨failure, fun text d hd => ?_⟩
        rw [List.cons_append, readDirectives, hfirst, hread text d hd]
        rfl
      · refine .inr ⟨directive :: front, back, fun text d hd => ?_⟩
        rw [List.cons_append, readDirectives, hfirst, hread text d hd]
        rfl

/-- What has to be loaded before the rest of a chain has the same file missing, whatever the rest is. -/
theorem loadTemplates_failAlike (h : FailAlike (loadTemplates files chain) (loadTemplates files other))
    (front : List Directive) :
    FailAlike (loadTemplates files (front ++ chain)) (loadTemplates files (front ++ other)) := by
  induction front with
  | nil => exact h
  | cons directive front ih =>
    match directive with
    | .filter _ => exact ih
    | .transform _ => exact ih
    | .output (.template _) => exact ih
    | .output (.templateFile name) =>
      simp only [List.cons_append, loadTemplates]
      cases files name.toList with
      | absent cause => exact .error _
      | file text => exact ih.map _ _

/-- A chain that ends in another form writes the same of a record, if both forms show every value in
the same text. -/
theorem written_congr (h : ∀ v, shown files layout ⟨v, some f⟩ = shown files layout ⟨v, some g⟩)
    (grants : Reservation) (front back : List Directive) (record : Value) :
    written grants files layout (front ++ .output f :: back) record =
      written grants files layout (front ++ .output g :: back) record := by
  unfold written
  rw [Chain.run_append, Chain.run_append]
  rcases (Chain.run grants front record).run .empty with ⟨e | _ | ⟨w, _ | form⟩, cache⟩
  · rfl
  · rfl
  · exact h w
  · rfl

end Chains

/-! ## The whole run -/

/-- Runs with the same input and layout give the same report, if the same template file is missing to
both or none is, and both chains write the same of every record. -/
theorem runOptions_congr {a b : Options} {chain other : List Directive}
    (ha : readDirectives a.directives = .ok chain) (hb : readDirectives b.directives = .ok other)
    (hinput : a.input = b.input) (hlayout : a.layout = b.layout)
    (hload : FailAlike (loadTemplates files chain) (loadTemplates files other))
    (hwritten : ∀ record,
      written host.grants files a.layout chain record = written host.grants files a.layout other record)
    (stdin : Text) : runOptions host a files stdin = runOptions host b files stdin := by
  have hprepare := prepare_of_read ha host files stdin
  have hprepare' := prepare_of_read hb host files stdin
  rw [← hinput, ← hlayout] at hprepare'
  rcases hload with ⟨templates, templates', hload, hload'⟩ | ⟨failure, hload, hload'⟩
  · rw [hload] at hprepare
    rw [hload'] at hprepare'
    cases hopen : openInput files stdin a.input with
    | error failure =>
      rw [hopen] at hprepare hprepare'
      rw [runOptions_of_error hprepare, runOptions_of_error hprepare']
    | ok input =>
      rw [hopen] at hprepare hprepare'
      rw [runOptions_of_ok hprepare, runOptions_of_ok hprepare',
        inputText_eq_collected (loads_of_loadTemplates hload),
        inputText_eq_collected (loads_of_loadTemplates hload'), funext hwritten]
  · rw [hload] at hprepare
    rw [hload'] at hprepare'
    rw [runOptions_of_error hprepare, runOptions_of_error hprepare']

theorem shown_templateFile (hfile : files name = .file text) (layout : Layout) (v : Value) :
    shown files layout ⟨v, some (.templateFile (String.ofList name))⟩ =
      shown files layout ⟨v, some (.template (String.ofList text))⟩ := by
  simp only [shown, String.toList_ofList, hfile]

theorem loadTemplates_templateFile (hfile : files name = .file text) (front back : List Directive) :
    FailAlike (loadTemplates files (front ++ .output (.templateFile (String.ofList name)) :: back))
      (loadTemplates files (front ++ .output (.template (String.ofList text)) :: back)) := by
  refine loadTemplates_failAlike ?_ front
  simp only [loadTemplates, String.toList_ofList, hfile]
  cases loadTemplates files back with
  | error failure => exact .error failure
  | ok templates => exact .ok _ _

theorem runOptions_templateFile (hfile : files name = .file text) (host : Host) (options : Options)
    (stdin : Text) (before after : List Text) :
    runOptions host { options with directives := before ++ (Directive.templateFileMark ++ name) :: after }
        files stdin =
      runOptions host { options with directives := before ++ (Directive.templateMark ++ text) :: after }
        files stdin := by
  have hnamed : Directive.parse (Directive.templateFileMark ++ name) =
      .ok (.output (.templateFile (String.ofList name))) := rfl
  have hgiven : Directive.parse (Directive.templateMark ++ text) =
      .ok (.output (.template (String.ofList text))) := rfl
  rcases readDirectives_around before after with ⟨failure, hread⟩ | ⟨front, back, hread⟩
  · -- one of the other texts is no directive
    rw [runOptions_of_error (prepare_of_unread (hread _ _ hnamed) host files stdin),
      runOptions_of_error (prepare_of_unread (hread _ _ hgiven) host files stdin)]
  · apply runOptions_congr
    · exact hread _ _ hnamed
    · exact hread _ _ hgiven
    · rfl
    · rfl
    · exact loadTemplates_templateFile hfile front back
    · exact written_congr (shown_templateFile hfile options.layout) host.grants front back

/-- A form shown by the text of a file and the form shown by this text itself give the same report, whichever
directives stand around it, whatever the other options and the input are; and so do the command lines with
either of them as an argument, wherever an argument is a directive. -/
theorem template_file_stands_for_its_text {files : Files} {name text : Text} (host : Host)
    (hfile : files name = .file text) :
    (∀ (options : Options) (before after : List Text) (stdin : Text),
      runOptions host { options with directives := before ++ (Directive.templateFileMark ++ name) :: after }
          files stdin =
        runOptions host { options with directives := before ++ (Directive.templateMark ++ text) :: after }
          files stdin) ∧
    ∀ (front back : List Text) (stdin : Text), ExpectsDirective front →
      run host (front ++ (Directive.templateFileMark ++ name) :: back) files stdin =
        run host (front ++ (Directive.templateMark ++ text) :: back) files stdin := by
  refine ⟨fun options before after stdin => runOptions_templateFile hfile host options stdin before after,
    fun front back stdin hfront => ?_⟩
  have hnamed : (Directive.templateFileMark ++ name).head? = some 'o' := rfl
  have hgiven : (Directive.templateMark ++ text).head? = some 'o' := rfl
  unfold run
  rcases parse_around hfront back with ⟨stop, hparse⟩ | ⟨options, before, after, hparse⟩
  · rw [hparse _ (by simp [hnamed]), hparse _ (by simp [hgiven])]
  · rw [hparse _ (by simp [hnamed]), hparse _ (by simp [hgiven])]
    exact congrArg Except.ok (runOptions_templateFile hfile host options stdin before after)

/-- Between a filter that fails on the last record and another form after the end of the options, where a
record before it is shown. -/
theorem template_file_stands_for_its_text_failing_record :
    let host : Host := ⟨.standard, .nearest⟩
    let files : Files := fun name =>
      if name = "t".toList then .file "\x7b\x7b.a\x7d\x7d;".toList else .absent .missing
    let front : List Text := ["-c".toList, "f:@a".toList]
    let back : List Text := ["--".toList, "o:template=".toList]
    let stdin : Text := "\x7b\"a\":1\x7d \"y\"".toList
    files "t".toList = .file "\x7b\x7b.a\x7d\x7d;".toList ∧ ExpectsDirective front ∧
      run host (front ++ "o:templatefile=t".toList :: back) files stdin =
        run host (front ++ "o:template=\x7b\x7b.a\x7d\x7d;".toList :: back) files stdin := by
  intro host files front back stdin
  have hfile : files "t".toList = .file "\x7b\x7b.a\x7d\x7d;".toList := by decide
  have hfront : ExpectsDirective front := by
    intro p hp
    have hread : front.foldlM Progress.read {} =
        .ok { options := { directives := ["f:@a".toList], compact := true } } := by decide +kernel
    rw [hread] at hp
    cases hp
    exact .inr rfl
  exact ⟨hfile, hfront, (template_file_stands_for_its_text host hfile).2 front back stdin hfront⟩

end JsonSieve.CommandLine
