import ImageAudit.CommandLine.Run
import ImageAudit.Proofs.Audit.Batch
import ImageAudit.Proofs.CommandLine.Display
import ImageAudit.Proofs.Report.Template

/-!
# What runs come to

The exit code of a run tells whether it failed, and, if that is asked for, whether some file did.
Files are written only if there is something to tell. Nothing of this depends on the tools a run
works with or on the system of files; but where reading a file breaks off, there is no exit code.

* `Run.SavesResults` and `Run.SavesReport` are the steps that write, `Run.Touches` what is left of
  them.
* `Run.effect_ofOptionsWith`: options on how results are shown do not matter for the exit code and
  the files.
* `Run.ofArgumentsWith_outcome`: all that a run may come to.
-/

namespace ImageAudit

open Text

/-- The rule on root has no parameters, so a policy of this kind alone is known. -/
theorem Policy.eq_of_kinds_eq_forbidRoot {p : Policy} (only : p.kinds = [.forbidRoot]) :
    p = ⟨[.forbidRoot]⟩ := by
  obtain ⟨r, rules, kind⟩ := List.map_eq_singleton_iff.1 only
  cases r <;> cases kind
  cases p
  cases rules
  rfl

theorem BatchReport.hasFailures_iff {b : BatchReport} :
    b.hasFailures = true ↔ ∃ r ∈ b.results, r.verdict = .fail := by
  simp [hasFailures, failedCount, List.countP_pos_iff, AuditResult.verdict]

/-- Surroundings without what only matters for the display. -/
def Surroundings.withoutDisplay (s : Surroundings) : Surroundings := { s with isTerminal := false }

/-- Whether arguments that are the same but for those on the display are read as options that are
the same but for the display. -/
def Toolkit.ReadsApart (kit : Toolkit) : Prop :=
  ∀ as as' o o', kit.readOptions as = .ok o → kit.readOptions as' = .ok o' →
    Options.dropDisplay as' = Options.dropDisplay as → o'.withoutDisplay = o.withoutDisplay

theorem Toolkit.readsApart_own : own.ReadsApart :=
  fun _ _ _ _ accepted accepted' dropped =>
    Options.withoutDisplay_eq_of_dropDisplay_eq accepted' accepted dropped

/-- Whether a template that can be filled in at one date can be so at another, too. -/
def Toolkit.FillsAlike (kit : Toolkit) (d d' : Text) : Prop :=
  ∀ template p b, (kit.render? template (.ofBatch d p b)).isSome =
    (kit.render? template (.ofBatch d' p b)).isSome

theorem Toolkit.fillsAlike_own {d d' : Text} (same : d.length = d'.length) :
    own.FillsAlike d d' := by
  intro template p b
  cases template with
  | none => simp only [own, renderReport?, Option.isSome_some]
  | some template => simp only [own, renderReport?, Report.Template.isSome_fill?_date template same]

/-- Whether it depends on the path alone, and not on the text, if a file can be written. -/
def Files.WritesAlike {σ : Type} (fs : Files σ) : Prop :=
  ∀ t path text text', (fs.write t path text).1 = none → (fs.write t path text').1 = none

theorem FileTree.writesAlike_files : files.WritesAlike := by
  intro t path text text' written
  change (t.write path text).1 = none at written
  change (t.write path text').1 = none
  rw [write] at written ⊢
  cases target : t.target path with
  | ok place => rfl
  | error f => simp [target] at written

namespace Run

variable {σ : Type} (kit : Toolkit) (fs : Files σ)

/-! ## Steps -/

/-- Whether the results are shown, if they are to be. -/
def Shows (o : Options) (fault : Option Text) : Prop := o.quiet = true ∨ fault = none

/-- What the files become when the results are written to one, if they are to be. -/
inductive SavesResults (o : Options) (b : BatchReport) (t : σ) : σ → Prop where
  | unasked (off : o.json = false) : SavesResults o b t t
  | saved {t' : σ} (asked : o.json = true)
      (written : fs.write t o.jsonPath (Json.report true b.results) = (none, t')) :
      SavesResults o b t t'

/-- What is written into a report. -/
inductive Renders (o : Options) (c : Report.Content) (t : σ) : Text → Prop where
  | usual {text : Text} (untold : o.template = none) (fits : kit.render? none c = some text) :
      Renders o c t text
  | filled {path template text : Text} (told : o.template = some path)
      (found : fs.read t path = .ok template) (fits : kit.render? (some template) c = some text) :
      Renders o c t text

/-- What the files become when the report is written, if it is to be. -/
inductive SavesReport (o : Options) (c : Report.Content) (t : σ) : σ → Prop where
  | unasked (off : o.report = false) : SavesReport o c t t
  | saved {text : Text} {t' : σ} (asked : o.report = true) (rendered : Renders kit fs o c t text)
      (written : fs.write t o.reportPath text = (none, t')) : SavesReport o c t t'

/-- What the files may be when a step has failed: nothing is written but what is asked for, and the
report only after the results. -/
inductive Touches (o : Options) (b : BatchReport) (c : Report.Content) (t : σ) : σ → Prop where
  | nothing : Touches o b c t t
  | results (asked : o.json = true) :
      Touches o b c t (fs.write t o.jsonPath (Json.report true b.results)).2
  | saved {t₁ : σ} (results : SavesResults fs o b t t₁) : Touches o b c t t₁
  | report {t₁ : σ} {text : Text} (results : SavesResults fs o b t t₁) (asked : o.report = true)
      (rendered : Renders kit fs o c t₁ text) : Touches o b c t (fs.write t₁ o.reportPath text).2

section

variable {kit fs} {s : Surroundings} {o : Options} {p : Policy} {b : BatchReport}
  {c : Report.Content} {t t' : σ} {fault : Option Text}

theorem showFault?_eq_none_iff : showFault? o fault = none ↔ Shows o fault := by
  cases quiet : o.quiet <;> simp [showFault?, Shows, quiet]

theorem writeResults_eq_iff :
    writeResults fs o b t = (none, t') ↔ SavesResults fs o b t t' := by
  rw [writeResults]
  constructor
  · intro saved
    split at saved
    · next asked =>
      cases written : fs.write t o.jsonPath (Json.report true b.results) with
      | mk f t₁ =>
        rw [written] at saved
        cases f <;> cases saved
        exact .saved asked written
    · next off =>
      cases saved
      exact .unasked (Bool.eq_false_iff.2 off)
  · rintro (off | ⟨asked, written⟩)
    · simp [off]
    · simp [asked, written]

theorem touches_of_writeResults : Touches kit fs o b c t (writeResults fs o b t).2 := by
  rw [writeResults]
  split
  · next asked => exact .results asked
  · exact .nothing

theorem readTemplate_eq_ok_iff {template : Option Text} :
    readTemplate fs o t = .ok template ↔
      o.template = none ∧ template = none ∨
        ∃ path text, o.template = some path ∧ fs.read t path = .ok text ∧ template = some text := by
  rw [readTemplate]
  cases told : o.template with
  | none => simp [eq_comm]
  | some path => cases found : fs.read t path <;> simp [found, eq_comm]

theorem reportText_eq_ok_iff {text : Text} :
    reportText kit fs o c t = .ok text ↔ Renders kit fs o c t text := by
  rw [reportText]
  constructor
  · intro rendered
    cases read : readTemplate fs o t with
    | error e => simp [read] at rendered
    | ok template =>
      cases fits : kit.render? template c with
      | none => simp [read, fits] at rendered
      | some filled =>
        simp only [read, fits, Except.ok.injEq] at rendered
        subst rendered
        rcases readTemplate_eq_ok_iff.1 read with ⟨untold, rfl⟩ | ⟨path, text, told, found, rfl⟩
        · exact .usual untold fits
        · exact .filled told found fits
  · rintro (⟨untold, fits⟩ | ⟨told, found, fits⟩)
    · simp only [readTemplate_eq_ok_iff.2 (.inl ⟨untold, rfl⟩), fits]
    · simp only [readTemplate_eq_ok_iff.2 (.inr ⟨_, _, told, found, rfl⟩), fits]

theorem writeReport_eq_iff :
    writeReport kit fs o c t = (none, t') ↔ SavesReport kit fs o c t t' := by
  rw [writeReport]
  constructor
  · intro saved
    split at saved
    · next asked =>
      cases rendered : reportText kit fs o c t with
      | error e => simp [rendered] at saved
      | ok text =>
        rw [rendered] at saved
        cases written : fs.write t o.reportPath text with
        | mk f t₁ =>
          simp only [written] at saved
          cases f <;> cases saved
          exact .saved asked (reportText_eq_ok_iff.1 rendered) written
    · next off =>
      cases saved
      exact .unasked (Bool.eq_false_iff.2 off)
  · rintro (off | ⟨asked, rendered, written⟩)
    · simp [off]
    · simp [asked, reportText_eq_ok_iff.2 rendered, written]

theorem touches_of_writeReport {t₁ : σ} (results : SavesResults fs o b t t₁) :
    Touches kit fs o b c t (writeReport kit fs o c t₁).2 := by
  rw [writeReport]
  split
  · next asked =>
    cases rendered : reportText kit fs o c t₁ with
    | error e => exact .saved results
    | ok text => exact .report results asked (reportText_eq_ok_iff.1 rendered)
  · exact .saved results

/-! ## Batches that are not empty -/

variable (kit fs) in
/-- What the files become when all is shown and written that is asked for. -/
inductive Completes (fault : Option Text) (s : Surroundings) (o : Options) (p : Policy)
    (b : BatchReport) (t : σ) : σ → Prop where
  | all {t₁ t₂ : σ} (shown : Shows o fault) (results : SavesResults fs o b t t₁)
      (report : SavesReport kit fs o (Report.Content.ofBatch s.date p b) t₁ t₂) :
      Completes fault s o p b t t₂

theorem ofBatchWith_of_completes (completes : Completes kit fs fault s o p b t t') :
    ofBatchWith kit fs fault s o p b t = ⟨codeOf o b, shown s o b, none, t'⟩ := by
  obtain ⟨shown, results, report⟩ := completes
  simp only [ofBatchWith, showFault?_eq_none_iff.2 shown, writeResults_eq_iff.2 results,
    writeReport_eq_iff.2 report]

/-- A run that fails has written nothing that is not asked for. -/
theorem ofBatchWith_of_not_completes (fails : ∀ t', ¬ Completes kit fs fault s o p b t t') :
    (ofBatchWith kit fs fault s o p b t).exitCode = 1 ∧
      Touches kit fs o b (.ofBatch s.date p b) t (ofBatchWith kit fs fault s o p b t).files := by
  cases shown : showFault? o fault with
  | some e =>
    simp only [ofBatchWith, shown, failed]
    exact ⟨trivial, .nothing⟩
  | none =>
    have touched : Touches kit fs o b (.ofBatch s.date p b) t (writeResults fs o b t).2 :=
      touches_of_writeResults
    rcases results : writeResults fs o b t with ⟨_ | e, t₁⟩
    · have kept := writeResults_eq_iff.1 results
      have touched : Touches kit fs o b (.ofBatch s.date p b) t
          (writeReport kit fs o (.ofBatch s.date p b) t₁).2 := touches_of_writeReport kept
      rcases report : writeReport kit fs o (.ofBatch s.date p b) t₁ with ⟨_ | e, t₂⟩
      · exact absurd (.all (showFault?_eq_none_iff.1 shown) kept (writeReport_eq_iff.1 report))
          (fails t₂)
      · rw [report] at touched
        simp only [ofBatchWith, shown, results, report, failed]
        exact ⟨trivial, touched⟩
    · rw [results] at touched
      simp only [ofBatchWith, shown, results, failed]
      exact ⟨trivial, touched⟩

theorem codeOf_eq (o : Options) (b : BatchReport) :
    codeOf o b =
      if o.failOnFindings = true ∧ ∃ r ∈ b.results, r.verdict = .fail then 3 else 0 := by
  simp only [codeOf, Bool.and_eq_true, BatchReport.hasFailures_iff, findingsCode]

/-! ## Options and arguments -/

theorem ofOptionsWith_of_no_policy {e : PolicyError}
    (missing : loadPolicy kit fs s o t = .error e) :
    ofOptionsWith kit fs fault s o t = some (failed [] (.policy e) t) := by
  rw [ofOptionsWith, missing]

theorem ofOptionsWith_eq_none_iff (loaded : loadPolicy kit fs s o t = .ok p) :
    ofOptionsWith kit fs fault s o t = none ↔
      ∃ path ∈ fs.audited t o.dockerfile, fs.BreaksOff t path := by
  rw [ofOptionsWith, loaded, ← BatchReport.ofFiles_eq_none_iff p]
  exact Option.map_eq_none_iff

theorem ofOptionsWith_of_none_audited (loaded : loadPolicy kit fs s o t = .ok p)
    (audited : BatchReport.ofPath p fs t o.dockerfile = some b) (none_audited : b.results = []) :
    ofOptionsWith kit fs fault s o t = some ⟨0, [], none, t⟩ := by
  simp [ofOptionsWith, loaded, audited, none_audited]

theorem ofOptionsWith_of_some_audited (loaded : loadPolicy kit fs s o t = .ok p)
    (audited : BatchReport.ofPath p fs t o.dockerfile = some b) (some_audited : b.results ≠ []) :
    ofOptionsWith kit fs fault s o t = some (ofBatchWith kit fs fault s o p b t) := by
  simp [ofOptionsWith, loaded, audited, some_audited]

theorem ofArgumentsWith_of_read {arguments : List Text}
    (accepted : kit.readOptions arguments = .ok o) (fault : Option Text) (s : Surroundings)
    (t : σ) : ofArgumentsWith kit fs fault s arguments t = ofOptionsWith kit fs fault s o t := by
  rw [ofArgumentsWith, accepted]

/-! ## What does not matter -/

/-- What a run leaves behind. -/
def effect (r : Run σ) : Nat × σ := (r.exitCode, r.files)

theorem effect_ofBatchWith (shown : Shows o fault) :
    (ofBatchWith kit fs fault s o p b t).effect =
      (ofBatchWith kit fs none s.withoutDisplay o.withoutDisplay p b t).effect := by
  have shown' : showFault? o.withoutDisplay none = none := rfl
  have results : writeResults fs o.withoutDisplay b t = writeResults fs o b t := rfl
  have report (t : σ) :
      writeReport kit fs o.withoutDisplay (Report.Content.ofBatch s.withoutDisplay.date p b) t =
        writeReport kit fs o (Report.Content.ofBatch s.date p b) t := rfl
  simp only [ofBatchWith, showFault?_eq_none_iff.2 shown, shown', results, report]
  rcases writeResults fs o b t with ⟨_ | e, t₁⟩
  · dsimp only
    rcases writeReport kit fs o (Report.Content.ofBatch s.date p b) t₁ with ⟨_ | e, t₂⟩ <;> rfl
  · rfl

theorem effect_ofOptionsWith (shown : Shows o fault) :
    (ofOptionsWith kit fs fault s o t).map effect =
      (ofOptions kit fs s.withoutDisplay o.withoutDisplay t).map effect := by
  have loaded : loadPolicy kit fs s.withoutDisplay o.withoutDisplay t = loadPolicy kit fs s o t :=
    rfl
  rw [ofOptionsWith, ofOptions, ofOptionsWith, loaded]
  cases loadPolicy kit fs s o t with
  | error e => rfl
  | ok p =>
    have audited : BatchReport.ofPath p fs t o.withoutDisplay.dockerfile =
        BatchReport.ofPath p fs t o.dockerfile := rfl
    simp only [audited, Option.map_map, Function.comp_def]
    congr 1
    funext b
    split
    · rfl
    · exact effect_ofBatchWith shown

/-! ## The date -/

theorem exists_write (writes : fs.WritesAlike) {path text : Text}
    (written : fs.write t path text = (none, t')) (other : Text) :
    ∃ t'', fs.write t path other = (none, t'') :=
  ⟨(fs.write t path other).2, Prod.ext (writes t path text other (by rw [written])) rfl⟩

theorem exists_renders {d d' text : Text} (fills : kit.FillsAlike d d')
    (rendered : Renders kit fs o (.ofBatch d p b) t text) :
    ∃ text', Renders kit fs o (.ofBatch d' p b) t text' := by
  have fills {template : Option Text} (fits : kit.render? template (.ofBatch d p b) = some text) :
      ∃ text', kit.render? template (.ofBatch d' p b) = some text' := by
    have also := fills template p b
    rw [fits] at also
    exact Option.isSome_iff_exists.1 also.symm
  cases rendered with
  | usual untold fits =>
    obtain ⟨text', fits'⟩ := fills fits
    exact ⟨text', .usual untold fits'⟩
  | filled told found fits =>
    obtain ⟨text', fits'⟩ := fills fits
    exact ⟨text', .filled told found fits'⟩

theorem exists_completes {d : Text} (writes : fs.WritesAlike) (fills : kit.FillsAlike s.date d)
    (completes : Completes kit fs fault s o p b t t') :
    ∃ t'', Completes kit fs fault { s with date := d } o p b t t'' := by
  obtain ⟨shown, results, report⟩ := completes
  cases report with
  | unasked off => exact ⟨_, .all shown results (.unasked off)⟩
  | saved asked rendered written =>
    obtain ⟨text, rendered'⟩ := exists_renders fills rendered
    obtain ⟨t'', written'⟩ := exists_write writes written text
    exact ⟨t'', .all shown results (.saved asked rendered' written')⟩

theorem exitCode_ofBatchWith_date {d : Text} (writes : fs.WritesAlike)
    (fills : kit.FillsAlike s.date d) :
    (ofBatchWith kit fs fault { s with date := d } o p b t).exitCode =
      (ofBatchWith kit fs fault s o p b t).exitCode := by
  have back : kit.FillsAlike d s.date := fun template p b => (fills template p b).symm
  by_cases completes : ∃ t', Completes kit fs fault s o p b t t'
  · obtain ⟨t', completes⟩ := completes
    obtain ⟨t'', completes'⟩ := exists_completes writes fills completes
    rw [ofBatchWith_of_completes completes, ofBatchWith_of_completes completes']
  · have fails' (t') (completes' : Completes kit fs fault { s with date := d } o p b t t') :
        False :=
      completes (exists_completes (s := { s with date := d }) (d := s.date) writes back completes')
    rw [(ofBatchWith_of_not_completes (not_exists.1 completes)).1,
      (ofBatchWith_of_not_completes fails').1]

theorem exitCode_ofOptionsWith_date {d : Text} (writes : fs.WritesAlike)
    (fills : kit.FillsAlike s.date d) :
    (ofOptionsWith kit fs fault { s with date := d } o t).map exitCode =
      (ofOptionsWith kit fs fault s o t).map exitCode := by
  have loaded : loadPolicy kit fs { s with date := d } o t = loadPolicy kit fs s o t := rfl
  rw [ofOptionsWith, ofOptionsWith, loaded]
  cases loadPolicy kit fs s o t with
  | error e => rfl
  | ok p =>
    simp only [Option.map_map, Function.comp_def]
    congr 1
    funext b
    split
    · rfl
    · exact exitCode_ofBatchWith_date writes fills

/-- Two runs at one time that differ in the display leave the same behind. -/
theorem effect_ofOptionsWith_display {s' : Surroundings} {o' : Options} {fault' : Option Text}
    (shown : Shows o fault) (shown' : Shows o' fault')
    (same : o'.withoutDisplay = o.withoutDisplay)
    (directory : s'.configDirectory = s.configDirectory) (t : σ) :
    (ofOptionsWith kit fs fault' s' o' t).map effect =
      (ofOptionsWith kit fs fault { s with date := s'.date } o t).map effect := by
  have surroundings : s'.withoutDisplay = { s with date := s'.date }.withoutDisplay := by
    simp only [Surroundings.withoutDisplay, directory]
  rw [effect_ofOptionsWith shown', effect_ofOptionsWith shown, same, surroundings]

end

/-! ## Runs -/

/-- A run without a policy fails. Otherwise it breaks off exactly if reading one of the files does.
If it does not, and can audit no file, it does nothing; or all is shown and written that is asked
for, and the exit code tells whether some file fails, if it is to; or the run fails. Arguments on
the display and the terminal do not matter for the exit code and the files; nor does the time, but
that the report gives the date. -/
theorem ofArgumentsWith_outcome {arguments : List Text} {o : Options}
    (accepted : kit.readOptions arguments = .ok o) (fault : Option Text) (s : Surroundings)
    (t : σ) :
    let outcome := ofArgumentsWith kit fs fault s arguments t
    (∀ e, loadPolicy kit fs s o t = .error e →
        ∃ run, outcome = some run ∧ run.exitCode = 1 ∧ run.output = [] ∧ run.files = t) ∧
      (∀ p, loadPolicy kit fs s o t = .ok p →
        (outcome = none ↔ ∃ path ∈ fs.audited t o.dockerfile, fs.BreaksOff t path) ∧
        ∀ b, BatchReport.ofPath p fs t o.dockerfile = some b → ∃ run, outcome = some run ∧
          (b.results = [] → run.exitCode = 0 ∧ run.output = [] ∧ run.files = t) ∧
          (b.results ≠ [] →
            (∀ t', Completes kit fs fault s o p b t t' →
              run.files = t' ∧
              run.exitCode =
                if o.failOnFindings = true ∧ ∃ r ∈ b.results, r.verdict = .fail then 3 else 0) ∧
            ((∀ t', ¬ Completes kit fs fault s o p b t t') →
              run.exitCode = 1 ∧
              Touches kit fs o b (.ofBatch s.date p b) t run.files))) ∧
      ∀ arguments' o' fault' s', kit.readOptions arguments' = .ok o' →
        o'.withoutDisplay = o.withoutDisplay ∨
          kit.ReadsApart ∧ Options.dropDisplay arguments' = Options.dropDisplay arguments →
        Shows o fault → Shows o' fault' → s'.configDirectory = s.configDirectory →
          let outcome' := ofArgumentsWith kit fs fault' s' arguments' t
          (s'.date = s.date → outcome'.map effect = outcome.map effect) ∧
          outcome'.map effect =
            (ofArgumentsWith kit fs fault { s with date := s'.date } arguments t).map effect ∧
          (fs.WritesAlike → kit.FillsAlike s.date s'.date →
            outcome'.map exitCode = outcome.map exitCode) := by
  simp only [ofArgumentsWith_of_read accepted]
  refine ⟨fun e missing => ?_,
    fun p loaded => ⟨ofOptionsWith_eq_none_iff loaded, fun b audited => ?_⟩, ?_⟩
  · exact ⟨_, ofOptionsWith_of_no_policy missing, rfl, rfl, rfl⟩
  · by_cases none_audited : b.results = []
    · exact ⟨_, ofOptionsWith_of_none_audited loaded audited none_audited,
        fun _ => ⟨rfl, rfl, rfl⟩, fun some_audited => absurd none_audited some_audited⟩
    · refine ⟨_, ofOptionsWith_of_some_audited loaded audited none_audited,
        fun none => absurd none none_audited, fun _ => ⟨fun t' completes => ?_,
          ofBatchWith_of_not_completes⟩⟩
      rw [ofBatchWith_of_completes completes]
      exact ⟨rfl, codeOf_eq o b⟩
  · intro arguments' o' fault' s' accepted' alike shown shown' directory
    have same : o'.withoutDisplay = o.withoutDisplay := by
      rcases alike with same | ⟨apart, dropped⟩
      · exact same
      · exact apart _ _ _ _ accepted accepted' dropped
    have display : (ofOptionsWith kit fs fault' s' o' t).map effect =
        (ofOptionsWith kit fs fault { s with date := s'.date } o t).map effect :=
      effect_ofOptionsWith_display shown shown' same directory t
    rw [ofArgumentsWith_of_read accepted']
    refine ⟨fun date => ?_, display, fun writes fills => ?_⟩
    · rw [display, date]
    · have codes := congrArg (Option.map Prod.fst) display
      simp only [Option.map_map] at codes
      exact codes.trans (exitCode_ofOptionsWith_date writes fills)

open FileTree in
/-- Without a policy, without a file, and with a file that runs as root; this is also said to other
arguments on the display, at another time. -/
theorem ofArgumentsWith_outcome_of_root_user :
    let text := "policy:\n forbid_root:\n  enabled: true".toList
    let t (es : List (Text × FileTree)) := directory (("p".toList, file (some text)) :: es)
    let f := ("f".toList, file (some "USER root".toList))
    let quiet := ["-qd", "f", "-pp", "--fail-on-findings"].map String.toList
    let loud := ["-d", "f", "-vvpp", "--format", "json", "--fail-on-findings"].map String.toList
    let s : Surroundings := ⟨false, "noon".toList, none⟩
    let s' : Surroundings := ⟨true, "dusk".toList, none⟩
    let run := ofArgumentsWith Toolkit.own FileTree.files (some "full".toList) s quiet
    let other := ofArgumentsWith Toolkit.own FileTree.files none s' loud (t [f])
    (run empty).map exitCode = some 1 ∧ (run (t [])).map exitCode = some 0 ∧
      (run (t [f])).map effect = some (3, t [f]) ∧ other.map exitCode = some 3 := by
  intro text t f quiet loud s s' run other
  let o : Options := ⟨"f".toList, some "p".toList, false, "dockerfile-audit.json".toList, false,
    "report.tex".toList, none, .terminal, false, true, 0, true⟩
  have accepted : Toolkit.own.readOptions quiet = .ok o := by decide +kernel
  have accepted' : Toolkit.own.readOptions loud =
      .ok { o with format := .json, verbosity := 2, quiet := false } := by
    decide +kernel
  have dropped : Options.dropDisplay loud = Options.dropDisplay quiet := by decide +kernel
  have kinds : (Toolkit.own.policy text).map Policy.kinds = .ok [.forbidRoot] := by decide +kernel
  obtain ⟨p, read, only⟩ := map_eq_ok_iff.1 kinds
  obtain rfl := Policy.eq_of_kinds_eq_forbidRoot only
  have loaded (es) : loadPolicy Toolkit.own FileTree.files s o (t es) = .ok ⟨[.forbidRoot]⟩ := by
    have found : FileTree.files.read (t es) "p".toList = .ok text := rfl
    rw [← read]
    change Policy.load Toolkit.own.policy FileTree.files (t es) "p".toList = _
    rw [Policy.load, found]
  have nothing : BatchReport.ofPath ⟨[.forbidRoot]⟩ FileTree.files (t []) o.dockerfile =
      some ⟨[], [⟨"f".toList, .notADockerfile "f".toList "does not exist".toList⟩]⟩ := by
    decide +kernel
  have judged : (BatchReport.ofPath ⟨[.forbidRoot]⟩ FileTree.files (t [f]) o.dockerfile).map
      (fun b => b.results.map AuditResult.verdict) = some [.fail] := by
    decide +kernel
  obtain ⟨b, audited, verdicts⟩ := Option.map_eq_some_iff.1 judged
  obtain ⟨r, results, verdict⟩ := List.map_eq_singleton_iff.1 verdicts
  have listed : r ∈ b.results := results ▸ List.mem_singleton_self r
  have completes : Completes Toolkit.own FileTree.files (some "full".toList) s o ⟨[.forbidRoot]⟩ b
      (t [f]) (t [f]) :=
    .all (.inl rfl) (.unasked rfl) (.unasked rfl)
  have outcome (t : FileTree) :=
    ofArgumentsWith_outcome Toolkit.own FileTree.files accepted (some "full".toList) s t
  obtain ⟨no_policy, -, -⟩ := outcome empty
  obtain ⟨-, no_file, -⟩ := outcome (t [])
  obtain ⟨-, runs, display⟩ := outcome (t [f])
  obtain ⟨run₁, ran₁, code₁, -⟩ := no_policy _ rfl
  obtain ⟨run₂, ran₂, code₂, -⟩ := (no_file _ (loaded [])).2 _ nothing
  obtain ⟨run₃, ran₃, -, some_audited⟩ := (runs _ (loaded [f])).2 b audited
  obtain ⟨files₃, code₃⟩ := (some_audited (List.ne_nil_of_mem listed)).1 _ completes
  rw [if_pos ⟨rfl, r, listed, verdict⟩] at code₃
  obtain ⟨-, -, codes⟩ := display loud _ none s' accepted'
    (.inr ⟨Toolkit.readsApart_own, dropped⟩) (.inl rfl) (.inr rfl) rfl
  have same := codes writesAlike_files (Toolkit.fillsAlike_own rfl)
  have codes₃ := congrArg (Option.map exitCode) ran₃
  refine ⟨(congrArg (Option.map exitCode) ran₁).trans (congrArg some code₁),
    (congrArg (Option.map exitCode) ran₂).trans (congrArg some (code₂ rfl).1),
    (congrArg (Option.map effect) ran₃).trans (congrArg some (Prod.ext code₃ files₃)),
    same.trans (codes₃.trans (congrArg some code₃))⟩

open FileTree in
/-- Where reading a file breaks off, the run has no exit code at all, though there is a policy. -/
theorem ofArguments_lost_at_kelvin :
    let text := "policy:".toList
    let t := directory [("p".toList, file (some text)),
      ("f".toList, file (some "HEALTHCHEC\u212a NONE".toList))]
    let s : Surroundings := ⟨false, "noon".toList, none⟩
    let arguments := ["-d", "f", "-p", "p"].map String.toList
    ∃ o p, Toolkit.own.readOptions arguments = .ok o ∧
      loadPolicy Toolkit.own FileTree.files s o t = .ok p ∧
      ofArguments Toolkit.own FileTree.files s arguments t = none := by
  intro text t s arguments
  let o : Options := ⟨"f".toList, some "p".toList, false, "dockerfile-audit.json".toList, false,
    "report.tex".toList, none, .terminal, false, false, 0, false⟩
  have accepted : Toolkit.own.readOptions arguments = .ok o := by decide +kernel
  have kinds : (Toolkit.own.policy text).map Policy.kinds = .ok [] := by decide +kernel
  obtain ⟨p, read, -⟩ := map_eq_ok_iff.1 kinds
  have loaded : loadPolicy Toolkit.own FileTree.files s o t = .ok p := by
    have found : FileTree.files.read t "p".toList = .ok text := rfl
    change Policy.load Toolkit.own.policy FileTree.files t "p".toList = _
    rw [Policy.load, found]
    exact read
  have lost : BatchReport.ofPath ⟨[]⟩ FileTree.files t o.dockerfile = none := by decide +kernel
  refine ⟨o, p, accepted, loaded, ?_⟩
  rw [ofArguments, ofArgumentsWith_of_read accepted, ofOptionsWith_eq_none_iff loaded,
    ← BatchReport.ofFiles_eq_none_iff ⟨[]⟩]
  exact lost

end Run

end ImageAudit
