/-
The command line works record by record. All records of a run share one cache of patterns, but what is
written for a record is what a run with that record alone would write (`written`), because chains are
steady; so the records before the first failing one have been written in full, and nothing of it or of
those after it. The templates that are loaded before the first record are the ones that output
directives of the chain can ask for.
-/
import JsonSieve.CommandLine.Report
import JsonSieve.Proofs.Chain.Compose
import JsonSieve.Proofs.Chain.History

namespace JsonSieve.CommandLine

variable {host : Host} {options : Options} {files : Files} {stdin : Text} {chain : List Directive}
  {texts : List Text}

/-! ## One record alone -/

/-- What is written for a value that a chain emits: its own text on lines of its own, or the text of
a template, which the files have where the template is named. -/
def shown (files : Files) (layout : Layout) (emit : Emit) : Except Failure Text :=
  match emit.output with
  | none => .ok (emit.value.text layout ++ ['\n'])
  | some (.template text) => (Template.render emit.value text.toList).mapError .rendering
  | some (.templateFile name) =>
    match files name.toList with
    | .file text => (Template.render emit.value text).mapError .rendering
    | .absent cause => .error (.noTemplate name cause)

/-- What is written for a record by a fresh evaluator; nothing if the chain drops it. -/
def written (grants : Reservation) (files : Files) (layout : Layout) (chain : List Directive)
    (record : Value) : Except Failure Text :=
  match ((Chain.run grants chain record).run .empty).1 with
  | .error e => .error (.directive e)
  | .ok none => .ok []
  | .ok (some emit) => shown files layout emit

/-- The layout that the options ask for. -/
def Options.layout (options : Options) : Layout :=
  if options.compact then .compact else .pretty

/-! ## Templates -/

/-- The templates hold the texts of all files that output directives of a chain name. -/
def Loads (files : Files) (chain : List Directive) (templates : Entries Text) : Prop :=
  ∀ name, .output (.templateFile name) ∈ chain →
    ∃ text, files name.toList = .file text ∧ Entries.get? name templates = some text

/-- Loading succeeds with the texts of all files that are named, or fails at one that has none. -/
theorem loadTemplates_cases (files : Files) (chain : List Directive) :
    (∃ templates, loadTemplates files chain = .ok templates ∧ Loads files chain templates) ∨
    ∃ name cause, .output (.templateFile name) ∈ chain ∧ files name.toList = .absent cause ∧
      loadTemplates files chain = .error (.noTemplate name cause) := by
  induction chain with
  | nil =>
    refine .inl ⟨[], rfl, ?_⟩
    intro name h
    cases h
  | cons directive chain ih =>
    by_cases hd : ∃ name, directive = .output (.templateFile name)
    · obtain ⟨name, rfl⟩ := hd
      cases hfile : files name.toList with
      | absent cause =>
        exact .inr ⟨name, cause, List.mem_cons_self, hfile, by simp only [loadTemplates, hfile]⟩
      | file text =>
        rcases ih with ⟨templates, hload, hall⟩ | ⟨other, cause, hmem, habsent, hload⟩
        · refine .inl ⟨(name, text) :: templates, by simp only [loadTemplates, hfile, hload]; rfl, ?_⟩
          intro other hmem
          by_cases hn : name = other
          · subst hn
            exact ⟨text, hfile, by simp [Entries.get?]⟩
          · have hother : .output (.templateFile other) ∈ chain := by
              rcases List.mem_cons.1 hmem with h | h
              · cases h; exact absurd rfl hn
              · exact h
            obtain ⟨t, ht, hget⟩ := hall other hother
            exact ⟨t, ht, by simp [Entries.get?, hn, hget]⟩
        · refine .inr ⟨other, cause, List.mem_cons_of_mem _ hmem, habsent, ?_⟩
          simp only [loadTemplates, hfile, hload]; rfl
    · -- no other directive names a file, so the rest of the chain decides
      have hskip : loadTemplates files (directive :: chain) = loadTemplates files chain := by
        rw [loadTemplates]
        rintro name rfl
        exact hd ⟨name, rfl⟩
      have hin : ∀ name, .output (.templateFile name) ∈ directive :: chain →
          .output (.templateFile name) ∈ chain := by
        intro name hmem
        rcases List.mem_cons.1 hmem with h | h
        · exact absurd ⟨name, h.symm⟩ hd
        · exact h
      rw [hskip]
      rcases ih with ⟨templates, hload, hall⟩ | ⟨name, cause, hmem, habsent, hload⟩
      · exact .inl ⟨templates, hload, fun name hname => hall name (hin name hname)⟩
      · exact .inr ⟨name, cause, List.mem_cons_of_mem _ hmem, habsent, hload⟩

theorem loads_of_loadTemplates {templates : Entries Text} (h : loadTemplates files chain = .ok templates) :
    Loads files chain templates := by
  rcases loadTemplates_cases files chain with ⟨loaded, hload, hloads⟩ | ⟨name, cause, -, -, hfails⟩
  · rw [h] at hload
    cases hload
    exact hloads
  · rw [h] at hfails
    cases hfails

/-- What is written for a value does not depend on whether its template has been loaded before. -/
theorem emitText_eq {layout : Layout} {templates : Entries Text} (hload : Loads files chain templates)
    {emit : Emit} (hmem : ∀ form, emit.output = some form → .output form ∈ chain) :
    emitText ⟨host, chain, templates, layout⟩ emit = shown files layout emit := by
  obtain ⟨w, output⟩ := emit
  match output with
  | none => rfl
  | some (.template text) => rfl
  | some (.templateFile name) =>
    obtain ⟨text, hfile, hget⟩ := hload name (hmem _ rfl)
    simp only [emitText, shown, hfile, hget]

/-! ## Records with a shared cache -/

theorem recordText_run (setup : Setup) (v : Value) (cache : PatternCache) :
    (recordText setup v).run cache =
      match (Chain.run setup.host.grants setup.chain v).run cache with
      | (.error e, cache') => (.error (.directive e), cache')
      | (.ok none, cache') => (.ok [], cache')
      | (.ok (some emit), cache') => (emitText setup emit, cache') := by
  rw [recordText, PatternCache.run_bind]
  rcases (Chain.run setup.host.grants setup.chain v).run cache with ⟨_ | _ | _, _⟩ <;> rfl

/-- On a sound cache a record is written as by a fresh evaluator, and the cache stays sound. -/
theorem recordText_eq_written {templates : Entries Text} (hload : Loads files chain templates)
    (layout : Layout) (v : Value) {cache : PatternCache} (hc : cache.Sound) :
    ((recordText ⟨host, chain, templates, layout⟩ v).run cache).1 = written host.grants files layout chain v ∧
      ((recordText ⟨host, chain, templates, layout⟩ v).run cache).2.Sound := by
  have hsteady := Chain.steady_run host.grants chain v
  have hanswer := hsteady.answer hc PatternCache.sound_empty
  have hsound := hsteady.sound hc
  rw [recordText_run, written, ← hanswer]
  rcases hrun : (Chain.run host.grants chain v).run cache with ⟨e | _ | emit, cache'⟩
  · rw [hrun] at hsound
    exact ⟨rfl, hsound⟩
  · rw [hrun] at hsound
    exact ⟨rfl, hsound⟩
  · rw [hrun] at hsound
    -- the form that is shown stands in the chain, so its template has been loaded
    refine ⟨emitText_eq hload fun form hform => ?_, hsound⟩
    exact Chain.mem_of_form? ((Chain.output_of_run hrun).symm.trans hform)

/-- What is written for records up to the first failing one, and the failure, where `out` tells what
is written for one record; `ending` is what comes after the last record. -/
def collected (out : Value → Except Failure Text) (ending : Option Failure) :
    List Value → Text × Option Failure
  | [] => ([], ending)
  | v :: vs =>
    match out v with
    | .error failure => ([], some failure)
    | .ok text => (text ++ (collected out ending vs).1, (collected out ending vs).2)

/-- The induction is on the records; each one finds the cache that those before it have left. -/
theorem recordsText_eq_collected {layout : Layout} {templates : Entries Text}
    (hload : Loads files chain templates) (ending : Option Failure) (records : List Value)
    {cache : PatternCache} (hc : cache.Sound) :
    ((recordsText ⟨host, chain, templates, layout⟩ ending records).run cache).1 =
      collected (written host.grants files layout chain) ending records := by
  induction records generalizing cache with
  | nil => rfl
  | cons v vs ih =>
    obtain ⟨hfirst, hsound⟩ := recordText_eq_written hload layout v hc
    have hrest := ih hsound
    rw [recordsText, PatternCache.run_bind, hfirst, collected, ← hrest]
    cases written host.grants files layout chain v with
    | error failure => rfl
    | ok text => rfl

section Collected

variable {out : Value → Except Failure Text} {ending : Option Failure} {records before : List Value} {r : Value}
  {failure : Failure}

theorem collected_of_ok (ending : Option Failure) (h : before.map out = texts.map .ok)
    (after : List Value) : collected out ending (before ++ after) =
      (texts.flatten ++ (collected out ending after).1, (collected out ending after).2) := by
  induction before generalizing texts with
  | nil =>
    cases texts with
    | nil => rfl
    | cons t ts => cases h
  | cons v vs ih =>
    cases texts with
    | nil => cases h
    | cons t ts =>
      simp only [List.map_cons, List.cons.injEq] at h
      obtain ⟨hv, hvs⟩ := h
      rw [List.cons_append, collected, hv]
      simp only [ih hvs, List.flatten_cons, List.append_assoc]

/-- Where every record is written, what comes after the last one decides. -/
theorem collected_of_all_ok (ending : Option Failure) (h : records.map out = texts.map .ok) :
    collected out ending records = (texts.flatten, ending) := by
  have hall := collected_of_ok ending h []
  rwa [List.append_nil, collected, List.append_nil] at hall

/-- Nothing is written of the first failing record and of those after it. -/
theorem collected_of_failure (ending : Option Failure) (h : before.map out = texts.map .ok)
    (hr : out r = .error failure) (after : List Value) :
    collected out ending (before ++ r :: after) = (texts.flatten, some failure) := by
  rw [collected_of_ok ending h, collected, hr, List.append_nil]

/-- A failure after the last record, or the failure of a record. -/
theorem failure_of_collected (h : (collected out ending records).2 = some failure) :
    ending = some failure ∨ ∃ r ∈ records, out r = .error failure := by
  induction records with
  | nil => exact .inl h
  | cons v vs ih =>
    rw [collected] at h
    cases hv : out v with
    | error e => rw [hv] at h; cases h; exact .inr ⟨v, List.mem_cons_self, hv⟩
    | ok text =>
      rw [hv] at h
      rcases ih h with h | ⟨r, hr, hout⟩
      · exact .inl h
      · exact .inr ⟨r, List.mem_cons_of_mem _ hr, hout⟩

end Collected

/-! ## The whole run -/

theorem readDirectives_of_ok {directives : List Text} (h : directives.map Directive.parse = chain.map .ok) :
    readDirectives directives = .ok chain := by
  induction directives generalizing chain with
  | nil =>
    cases chain with
    | nil => rfl
    | cons d ds => cases h
  | cons text directives ih =>
    cases chain with
    | nil => cases h
    | cons d ds =>
      simp only [List.map_cons, List.cons.injEq] at h
      rw [readDirectives, h.1, ih h.2]
      rfl

theorem exists_mem_of_parse {directives : List Text} (h : directives.map Directive.parse = chain.map .ok)
    {text : Text} (hmem : text ∈ directives) : ∃ d ∈ chain, Directive.parse text = .ok d := by
  have hok : Directive.parse text ∈ chain.map .ok := h ▸ List.mem_map_of_mem hmem
  obtain ⟨d, hd, hparse⟩ := List.mem_map.1 hok
  exact ⟨d, hd, hparse.symm⟩

/-- Reading directives succeeds with all of them, or fails at a text that is none. -/
theorem readDirectives_cases (directives : List Text) :
    (∃ chain, readDirectives directives = .ok chain ∧ directives.map Directive.parse = chain.map .ok) ∨
    ∃ text ∈ directives, ∃ e, Directive.parse text = .error e ∧
      readDirectives directives = .error (.badDirective text e) := by
  induction directives with
  | nil => exact .inl ⟨[], rfl, rfl⟩
  | cons text directives ih =>
    cases hd : Directive.parse text with
    | error e => exact .inr ⟨text, List.mem_cons_self, e, hd, by rw [readDirectives, hd]⟩
    | ok d =>
      rcases ih with ⟨chain, hread, hall⟩ | ⟨bad, hmem, e, herr, hread⟩
      · exact .inl ⟨d :: chain, by rw [readDirectives, hd, hread]; rfl, by simp [hd, hall]⟩
      · exact .inr ⟨bad, List.mem_cons_of_mem _ hmem, e, herr, by rw [readDirectives, hd, hread]; rfl⟩

/-- The report of what has been written and of the failure, if there is one. -/
def report (stdout : Text) : Option Failure → Report
  | none => ⟨0, stdout, none⟩
  | some failure => ⟨1, stdout, some failure⟩

theorem runOptions_of_error {failure : Failure} (h : prepare host options files stdin = .error failure) :
    runOptions host options files stdin = report [] (some failure) := by
  rw [runOptions, h]; rfl

theorem runOptions_of_ok {setup : Setup} {input : Text}
    (h : prepare host options files stdin = .ok (setup, input)) :
    runOptions host options files stdin = report (inputText setup input).1 (inputText setup input).2 := by
  simp only [runOptions, h]
  rcases inputText setup input with ⟨stdout, _ | failure⟩
  · rfl
  · rfl

/-- What comes after the last record of an input: nothing, or what is no document. -/
def ending (rounding : Json.Rounding) (input : Text) : Option Failure :=
  if (Json.readAll rounding input).2 then none else some (.badInput .malformed)

/-- The records of an input. -/
def records (rounding : Json.Rounding) (input : Text) : List Value :=
  (Json.readAll rounding input).1.map Value.ofJson

theorem inputText_eq_collected {layout : Layout} {templates : Entries Text}
    (hload : Loads files chain templates) (input : Text) :
    inputText ⟨host, chain, templates, layout⟩ input =
      collected (written host.grants files layout chain) (ending host.rounding input)
        (records host.rounding input) :=
  recordsText_eq_collected hload (ending host.rounding input) (records host.rounding input)
    PatternCache.sound_empty

theorem prepare_of_read (hread : readDirectives options.directives = .ok chain) (host : Host) (files : Files)
    (stdin : Text) :
    prepare host options files stdin = (do
      let templates ← loadTemplates files chain
      let input ← openInput files stdin options.input
      .ok (⟨host, chain, templates, options.layout⟩, input)) := by
  rw [prepare, hread]
  rfl

theorem prepare_of_unread {failure : Failure} (hread : readDirectives options.directives = .error failure)
    (host : Host) (files : Files) (stdin : Text) : prepare host options files stdin = .error failure := by
  rw [prepare, hread]
  rfl

/-- What a run fails by before its input is opened: a text that is no directive or, where there is none, a
template file that cannot be read. -/
inductive FailsAtStart (options : Options) (files : Files) : Failure → Prop
  | directive {text : Text} {e : Error} (hmem : text ∈ options.directives)
      (h : Directive.parse text = .error e) : FailsAtStart options files (.badDirective text e)
  | template {chain : List Directive} {name : String} {cause : Unread}
      (hparse : options.directives.map Directive.parse = chain.map .ok)
      (hmem : .output (.templateFile name) ∈ chain) (hfile : files name.toList = .absent cause) :
      FailsAtStart options files (.noTemplate name cause)

/-- Nothing fails before the first record: the directives parse to a chain, the template files that it
names have texts, and so has the input. -/
structure Starts (options : Options) (files : Files) (stdin : Text) (chain : List Directive)
    (input : Text) : Prop where
  parses : options.directives.map Directive.parse = chain.map .ok
  templates : ∀ name, .output (.templateFile name) ∈ chain → ∃ text, files name.toList = .file text
  opens : openInput files stdin options.input = .ok input

/-- A run fails before its input is opened, or else its directives parse and their templates are there,
and the input decides. -/
theorem prepare_cases (host : Host) (options : Options) (files : Files) (stdin : Text) :
    (∃ failure, FailsAtStart options files failure ∧ prepare host options files stdin = .error failure) ∨
    ∃ chain templates, options.directives.map Directive.parse = chain.map .ok ∧ Loads files chain templates ∧
      prepare host options files stdin = (openInput files stdin options.input).map
        fun input => (⟨host, chain, templates, options.layout⟩, input) := by
  rcases readDirectives_cases options.directives with ⟨chain, hread, hparse⟩ | ⟨text, hmem, e, herror, hread⟩
  · rcases loadTemplates_cases files chain with ⟨templates, hload, hloads⟩ | ⟨name, cause, hmem, hfile, hload⟩
    · refine .inr ⟨chain, templates, hparse, hloads, ?_⟩
      rw [prepare_of_read hread, hload]
      cases openInput files stdin options.input with
      | ok input => rfl
      | error failure => rfl
    · refine .inl ⟨_, .template hparse hmem hfile, ?_⟩
      rw [prepare_of_read hread, hload]
      rfl
  · exact .inl ⟨_, .directive hmem herror, prepare_of_unread hread host files stdin⟩

variable {input : Text}

/-- A run that starts goes through its input with the templates of its chain. -/
theorem prepare_eq (h : Starts options files stdin chain input) (host : Host) :
    ∃ templates, prepare host options files stdin = .ok (⟨host, chain, templates, options.layout⟩, input) ∧
      Loads files chain templates := by
  have hread := readDirectives_of_ok h.parses
  rcases loadTemplates_cases files chain with ⟨templates, hload, hloads⟩ | ⟨name, cause, hmem, hfile, -⟩
  · refine ⟨templates, ?_, hloads⟩
    rw [prepare_of_read hread, hload, h.opens]
    rfl
  · obtain ⟨text, htext⟩ := h.templates name hmem
    rw [hfile] at htext
    cases htext

/-- A run that starts writes its records up to the first failing one. -/
theorem runOptions_of_collected {text : Text} {failure : Option Failure}
    (hstarts : Starts options files stdin chain input)
    (h : collected (written host.grants files options.layout chain) (ending host.rounding input)
      (records host.rounding input) = (text, failure)) :
    runOptions host options files stdin = report text failure := by
  obtain ⟨templates, hprepare, hloads⟩ := prepare_eq hstarts host
  rw [runOptions_of_ok hprepare, inputText_eq_collected hloads, h]

theorem openInput_ne_notLoaded {file : Option Text} {failure : Failure}
    (h : openInput files stdin file = .error failure) (name : String) : failure ≠ .notLoaded name := by
  unfold openInput at h
  split at h
  · cases h
  · split at h
    · cases h
    · cases h; simp
    · cases h; simp

theorem written_ne_notLoaded {grants : Reservation} {layout : Layout} {r : Value} {failure : Failure}
    (h : written grants files layout chain r = .error failure) (name : String) : failure ≠ .notLoaded name := by
  have rendered (x : Except Error Text) (hx : x.mapError Failure.rendering = .error failure) :
      failure ≠ .notLoaded name := by
    cases x with
    | error e => cases hx; simp
    | ok text => cases hx
  unfold written at h
  split at h
  · cases h; simp
  · cases h
  · unfold shown at h
    split at h
    · cases h
    · exact rendered _ h
    · split at h
      · exact rendered _ h
      · cases h; simp

/-- The records of a run are written one after the other, each as by a fresh evaluator, up to the first
that fails or to the end of the input; the exit code is zero if there is no failure, and otherwise one. A
text that is no directive and a template file that cannot be read fail the run before anything is
written, and no template is ever missing afterwards. -/
theorem runOptions_record_by_record (host : Host) (options : Options) (files : Files) (stdin : Text) :
    (∀ chain input, options.directives.map Directive.parse = chain.map .ok →
      (∀ name, .output (.templateFile name) ∈ chain → ∃ text, files name.toList = .file text) →
      openInput files stdin options.input = .ok input →
      (∀ texts : List Text,
        (records host.rounding input).map (written host.grants files options.layout chain) = texts.map .ok →
        runOptions host options files stdin =
          if (Json.readAll host.rounding input).2 then ⟨0, texts.flatten, none⟩
          else ⟨1, texts.flatten, some (.badInput .malformed)⟩) ∧
      ∀ before r after failure, ∀ texts : List Text, records host.rounding input = before ++ r :: after →
        before.map (written host.grants files options.layout chain) = texts.map .ok →
        written host.grants files options.layout chain r = .error failure →
        runOptions host options files stdin = ⟨1, texts.flatten, some failure⟩) ∧
    (∀ text ∈ options.directives, ∀ e, Directive.parse text = .error e →
      ∃ failure, FailsAtStart options files failure ∧
        runOptions host options files stdin = ⟨1, [], some failure⟩) ∧
    (∀ text ∈ options.directives, ∀ name, Directive.parse text = .ok (.output (.templateFile name)) →
      (∀ content, files name.toList ≠ .file content) →
      ∃ failure, FailsAtStart options files failure ∧
        runOptions host options files stdin = ⟨1, [], some failure⟩) ∧
    (∀ name, prepare host options files stdin ≠ .error (.notLoaded name)) ∧
    ∀ setup input, prepare host options files stdin = .ok (setup, input) →
      ∀ name, (inputText setup input).2 ≠ some (.notLoaded name) := by
  refine ⟨fun chain input hparse htemplates hinput => ⟨fun texts hall => ?_, ?_⟩,
    fun text hmem e herror => ?_, fun text hmem name hname hnone => ?_, fun name hprepare => ?_,
    fun setup input hprepare name hfailure => ?_⟩
  · rw [runOptions_of_collected ⟨hparse, htemplates, hinput⟩ (collected_of_all_ok _ hall), ending]
    split
    · rfl
    · rfl
  · intro before r after failure texts hrecords hbefore hfailure
    have hcollected := collected_of_failure (ending host.rounding input) hbefore hfailure after
    rw [← hrecords] at hcollected
    exact runOptions_of_collected ⟨hparse, htemplates, hinput⟩ hcollected
  · rcases prepare_cases host options files stdin with
      ⟨failure, hfails, hprepare⟩ | ⟨chain, _, hparse, -, -⟩
    · exact ⟨failure, hfails, runOptions_of_error hprepare⟩
    · obtain ⟨d, -, hd⟩ := exists_mem_of_parse hparse hmem
      rw [herror] at hd
      cases hd
  · rcases prepare_cases host options files stdin with
      ⟨failure, hfails, hprepare⟩ | ⟨chain, _, hparse, hloads, -⟩
    · exact ⟨failure, hfails, runOptions_of_error hprepare⟩
    · obtain ⟨d, hd, heq⟩ := exists_mem_of_parse hparse hmem
      rw [hname] at heq
      cases heq
      obtain ⟨content, hcontent, -⟩ := hloads name hd
      exact absurd hcontent (hnone content)
  · rcases prepare_cases host options files stdin with ⟨failure, hfails, herror⟩ | ⟨chain, _, -, -, hopened⟩
    · rw [herror] at hprepare
      cases hprepare
      cases hfails
    · rw [hopened] at hprepare
      cases hinput : openInput files stdin options.input with
      | ok input => rw [hinput] at hprepare; cases hprepare
      | error failure =>
        rw [hinput] at hprepare
        cases hprepare
        exact openInput_ne_notLoaded hinput name rfl
  · rcases prepare_cases host options files stdin with ⟨_, -, herror⟩ | ⟨chain, templates, -, hloads, hopened⟩
    · rw [herror] at hprepare
      cases hprepare
    · rw [hopened] at hprepare
      cases hinput : openInput files stdin options.input with
      | error failure => rw [hinput] at hprepare; cases hprepare
      | ok input =>
        rw [hinput] at hprepare
        cases hprepare
        rw [inputText_eq_collected hloads] at hfailure
        rcases failure_of_collected hfailure with hend | ⟨r, -, hr⟩
        · unfold ending at hend
          split at hend <;> cases hend
        · exact written_ne_notLoaded hr name rfl

/-- A record that fits no cut, after one that is written through the template of a file. -/
theorem runOptions_record_by_record_second_fails :
    let host : Host := ⟨.standard, .nearest⟩
    let options : Options := { directives := ["f:@a".toList, "o:templatefile=t".toList] }
    let files : Files := fun name =>
      if name = ['t'] then .file "\x7b\x7b.a\x7d\x7d;".toList else .absent .missing
    let stdin : Text := "\x7b\"a\":\"x\"\x7d \"y\" \x7b\"a\":null\x7d".toList
    let chain : List Directive := [.filter "@a", .output (.templateFile "t")]
    options.directives.map Directive.parse = chain.map .ok ∧
      runOptions host options files stdin =
        ⟨1, "x;".toList, some (.directive ⟨"f:@a", .illegal (.cannotCut .string)⟩)⟩ := by
  intro host options files stdin chain
  have hparse : options.directives.map Directive.parse = chain.map .ok := by decide +kernel
  have htemplates : ∀ name, .output (.templateFile name) ∈ chain →
      ∃ text, files name.toList = .file text := by
    intro name hmem
    simp only [chain, List.mem_cons, List.not_mem_nil, or_false, reduceCtorEq, false_or] at hmem
    cases hmem
    exact ⟨_, rfl⟩
  have hrecords : records host.rounding stdin =
      [.map [("a", .string "x")]] ++ .string "y" :: [.map [("a", .null)]] := by decide +kernel
  have hbefore : [Value.map [("a", .string "x")]].map (written host.grants files options.layout chain) =
      ["x;".toList].map .ok := by decide +kernel
  have hfailure : written host.grants files options.layout chain (.string "y") =
      .error (.directive ⟨"f:@a", .illegal (.cannotCut .string)⟩) := by decide +kernel
  refine ⟨hparse, ?_⟩
  rw [((runOptions_record_by_record host options files stdin).1 chain stdin hparse htemplates rfl).2
    _ _ _ _ _ hrecords hbefore hfailure]
  rfl

end JsonSieve.CommandLine
