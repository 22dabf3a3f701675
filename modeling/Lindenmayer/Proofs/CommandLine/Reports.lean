import Mathlib.Data.List.Basic
import Lindenmayer.CommandLine.Run
import Lindenmayer.Proofs.CommandLine.Settings
import Lindenmayer.Proofs.Nesting

namespace Lindenmayer

namespace CommandLine

namespace Report

@[simp] theorem append_empty (report : Report) : report ++ empty = report := by
  cases report with
  | mk output errors failed =>
      change (⟨output ++ "", errors ++ "", failed || false⟩ : Report) = _
      simp

def outcome (report : Report) : Outcome :=
  ⟨report.exitCode, report.output, report.errors⟩

theorem exitCode_eq_one_iff {report : Report} : report.exitCode = 1 ↔ report.failed = true := by
  cases hfailed : report.failed <;> simp [exitCode, hfailed]

theorem exitCode_eq_zero_iff {report : Report} : report.exitCode = 0 ↔ report.failed = false := by
  cases hfailed : report.failed <;> simp [exitCode, hfailed]

end Report

/-- What is printed is put together in order, and one failure is a failure of them all. -/
def Outcome.combined (outcomes : List Outcome) : Outcome :=
  ⟨if ∃ outcome ∈ outcomes, outcome.exitCode = 1 then 1 else 0, .join (outcomes.map output),
    .join (outcomes.map errors)⟩

namespace Outcome

@[simp] theorem output_combined (outcomes : List Outcome) :
    (combined outcomes).output = .join (outcomes.map output) := rfl

@[simp] theorem errors_combined (outcomes : List Outcome) :
    (combined outcomes).errors = .join (outcomes.map errors) := rfl

theorem exitCode_combined_eq_one_iff {outcomes : List Outcome} :
    (combined outcomes).exitCode = 1 ↔ ∃ outcome ∈ outcomes, outcome.exitCode = 1 := by
  rw [combined]
  split <;> simp_all

theorem exitCode_combined_eq_zero_iff {outcomes : List Outcome} :
    (combined outcomes).exitCode = 0 ↔ ∀ outcome ∈ outcomes, outcome.exitCode ≠ 1 := by
  rw [combined]
  split <;> simp_all

end Outcome

theorem Report.outcome_append (report : Report) {rest : Report} {outcomes : List Outcome}
    (h : rest.outcome = .combined outcomes) :
    (report ++ rest).outcome = .combined (report.outcome :: outcomes) := by
  obtain ⟨-, houtput, herrors⟩ := Outcome.mk.inj h
  have hrest : rest.failed = true ↔ ∃ outcome ∈ outcomes, outcome.exitCode = 1 := by
    rw [← exitCode_eq_one_iff, ← Outcome.exitCode_combined_eq_one_iff, ← h]
    rfl
  have hfailed : (report ++ rest).failed = true ↔
      ∃ outcome ∈ report.outcome :: outcomes, outcome.exitCode = 1 := by
    rw [failed_append, Bool.or_eq_true, hrest, ← exitCode_eq_one_iff, List.exists_mem_cons_iff]
    rfl
  rw [outcome, exitCode, output_append, errors_append, houtput, herrors, ← String.join_cons,
    ← String.join_cons]
  simp only [hfailed]
  rfl

theorem Report.outcome_foldr (report : String → Report) (names : List String) :
    (names.foldr (fun name rest => report name ++ rest) empty).outcome =
      .combined (names.map fun name => (report name).outcome) := by
  induction names with
  | nil => rfl
  | cons name rest ih => exact outcome_append (report name) ih

def outcomeOf (files : Files) (arguments : List String) : Outcome :=
  (Request.ofArguments arguments).outcome files

/-- What comes of the flags among the arguments with a single file. -/
def outcomeAlone (files : Files) (arguments : List String) (file : String) : Outcome :=
  outcomeOf files (flags arguments ++ ["--", file])

section

variable {arguments : List String} {options : Options}

theorem outcomeAlone_eq (h : Request.ofArguments arguments = .process options) (files : Files)
    {file : String} (hfile : file ∈ fileNames arguments) :
    outcomeAlone files arguments file = (options.reportFile files file).outcome := by
  obtain ⟨-, hnames⟩ := files_of_ofArguments h
  rw [outcomeAlone, outcomeOf, ofArguments_flags h (hnames file hfile)]
  have hreport : ({ options with files := [file] } : Options).report files =
      options.reportFile files file ++ .empty := rfl
  rw [Request.outcome, hreport, Report.append_empty]
  rfl

theorem outcomeOf_eq (h : Request.ofArguments arguments = .process options) (files : Files) :
    outcomeOf files arguments =
      .combined ((fileNames arguments).map fun file =>
        (options.reportFile files file).outcome) := by
  rw [outcomeOf, h, ← (files_of_ofArguments h).1]
  exact Report.outcome_foldr (options.reportFile files) options.files

theorem outcomeOf_eq_of_alone (h : Request.ofArguments arguments = .process options)
    (files : Files) :
    outcomeOf files arguments =
      .combined ((fileNames arguments).map (outcomeAlone files arguments)) := by
  rw [outcomeOf_eq h]
  apply congrArg
  apply List.map_congr_left
  intro file hfile
  exact (outcomeAlone_eq h files hfile).symm

theorem output_of_fileNames (h : Request.ofArguments arguments = .process options) (files : Files)
    (file : String) (hnames : fileNames arguments = [file]) :
    (outcomeOf files arguments).output = (outcomeAlone files arguments file).output := by
  rw [outcomeOf_eq_of_alone h, hnames, Outcome.output_combined]
  simp

end

end CommandLine

theorem Model.parseReads_eq_ok_iff {reads : List Read} {model : Model} :
    parseReads reads = .ok model ↔
      ∃ text, Read.gatherText reads = .ok text ∧ parse text = .ok model := by
  unfold parseReads
  cases Read.gatherText reads <;> simp

namespace CommandLine

namespace Options

/-- What stands in the way of a file's output. -/
inductive Rejects (options : Options) (reads : List Read) : Prop
  | unreadable {failure : ReadFailure} (read : Read.gatherText reads = .error failure)
  | malformed {text : String} {error : SyntaxError} (read : Read.gatherText reads = .ok text)
      (parse : Model.parse text = .error error)
  | unbalanced {text : String} {model : Model} (read : Read.gatherText reads = .ok text)
      (parse : Model.parse text = .ok model) (strict : options.strict = true)
      (imbalances : model.imbalances ≠ [])

variable {options : Options} {files : Files} {file : String}

theorem rejects_of_error {reads : List Read} {error : SyntaxError}
    (h : Model.parseReads reads = .error error) : options.Rejects reads := by
  rw [Model.parseReads] at h
  cases hread : Read.gatherText reads with
  | error failure => exact .unreadable hread
  | ok text =>
      rw [hread] at h
      exact .malformed hread h

theorem rejects_iff_of_ok {reads : List Read} {model : Model}
    (h : Model.parseReads reads = .ok model) :
    options.Rejects reads ↔ options.strict = true ∧ model.imbalances ≠ [] := by
  obtain ⟨text, hread, hparse⟩ := Model.parseReads_eq_ok_iff.mp h
  constructor
  · intro hrejects
    cases hrejects with
    | unreadable read => exact absurd (hread.symm.trans read) nofun
    | malformed read parse =>
        obtain rfl := Except.ok.inj (hread.symm.trans read)
        exact absurd (hparse.symm.trans parse) nofun
    | unbalanced read parse strict imbalances =>
        obtain rfl := Except.ok.inj (hread.symm.trans read)
        obtain rfl := Except.ok.inj (hparse.symm.trans parse)
        exact ⟨strict, imbalances⟩
  · intro hrefused
    exact .unbalanced hread hparse hrefused.1 hrefused.2

theorem reportFile_cases (options : Options) (files : Files) (file : String) :
    (options.Rejects (files file) ∧ ∃ errors, options.reportFile files file = ⟨"", errors, true⟩) ∨
      (¬options.Rejects (files file) ∧ ∃ model errors, Model.parseReads (files file) = .ok model ∧
        options.reportFile files file = ⟨options.render file model, errors, false⟩) := by
  rw [reportFile]
  cases hread : Model.parseReads (files file) with
  | error error => exact .inl ⟨rejects_of_error hread, _, rfl⟩
  | ok model =>
      rw [rejects_iff_of_ok hread]
      dsimp only [reportModel]
      split
      · rename_i hrefused
        exact .inl ⟨hrefused, _, rfl⟩
      · rename_i haccepted
        exact .inr ⟨haccepted, model, _, rfl, rfl⟩

theorem failed_reportFile_iff :
    (options.reportFile files file).failed = true ↔ options.Rejects (files file) := by
  obtain ⟨hrejects, errors, hreport⟩ | ⟨haccepts, model, errors, -, hreport⟩ :=
    reportFile_cases options files file
  · simp [hreport, hrejects]
  · simp [hreport, haccepts]

theorem output_of_rejects (h : options.Rejects (files file)) :
    (options.reportFile files file).output = "" := by
  obtain ⟨-, errors, hreport⟩ | ⟨haccepts, -⟩ := reportFile_cases options files file
  · rw [hreport]
  · exact absurd h haccepts

theorem output_of_not_rejects (h : ¬options.Rejects (files file)) :
    ∃ model, Model.parseReads (files file) = .ok model ∧
      (options.reportFile files file).output = options.render file model := by
  obtain ⟨hrejects, -⟩ | ⟨-, model, errors, hread, hreport⟩ := reportFile_cases options files file
  · exact absurd hrejects h
  · exact ⟨model, hread, by rw [hreport]⟩

end Options

theorem summary_line (file : String) (model : Model) :
    summary file model ++ "\n" =
      file ++ ": " ++ toString model.generations.toNat ++ " generations, angle " ++
        .ofList model.angle.text ++ ", scale " ++ .ofList model.scale.text ++ ", " ++
        toString model.seed.length ++ " axiom symbols, " ++
        toString (model.productions.entries.flatMap Prod.snd).length ++ " productions for " ++
        toString model.productions.entries.length ++ " predecessors\n" := by
  rw [summary, Table.count, String.append_assoc]
  rfl

/-- A command line does to its files, one after the other, what its flags do to each of them alone.
It fails if one of them does. -/
theorem outcome_of_files (files : Files) {arguments : List String} {options : Options}
    (h : Request.ofArguments arguments = .process options) :
    let names := fileNames arguments
    let alone := outcomeAlone files arguments
    outcomeOf files arguments = .combined (names.map alone) ∧
      ∀ file ∈ names,
        Request.ofArguments (flags arguments ++ ["--", file]) =
            .process { options with files := [file] } ∧
          ((alone file).exitCode = 1 ↔ options.Rejects (files file)) ∧
          (options.Rejects (files file) → (alone file).output = "") ∧
          (¬options.Rejects (files file) → (alone file).exitCode = 0 ∧
            ∃ text model, Read.gatherText (files file) = .ok text ∧
              Model.parse text = .ok model ∧
              (alone file).output =
                if options.canonical then model.canonical
                else if options.outline then model.nested ++ "\n"
                else
                  file ++ ": " ++ toString model.generations.toNat ++ " generations, angle " ++
                    .ofList model.angle.text ++ ", scale " ++ .ofList model.scale.text ++ ", " ++
                    toString model.seed.length ++ " axiom symbols, " ++
                    toString (model.productions.entries.flatMap Prod.snd).length ++
                    " productions for " ++ toString model.productions.entries.length ++
                    " predecessors\n") := by
  intro names alone
  have halone : ∀ file ∈ names, alone file = (options.reportFile files file).outcome :=
    fun file hfile => outcomeAlone_eq h files hfile
  refine ⟨?_, fun file hfile => ⟨?_, ?_, ?_, ?_⟩⟩
  · exact outcomeOf_eq_of_alone h files
  · exact ofArguments_flags h ((files_of_ofArguments h).2 file hfile)
  · rw [halone file hfile]
    exact Report.exitCode_eq_one_iff.trans Options.failed_reportFile_iff
  · intro hrejects
    rw [halone file hfile]
    exact Options.output_of_rejects hrejects
  · intro haccepts
    obtain ⟨model, hread, houtput⟩ := Options.output_of_not_rejects haccepts
    obtain ⟨text, hgather, hparse⟩ := Model.parseReads_eq_ok_iff.mp hread
    rw [Options.render, model.outlineText_eq, summary_line] at houtput
    rw [halone file hfile]
    refine ⟨?_, text, model, hgather, hparse, houtput⟩
    apply Report.exitCode_eq_zero_iff.mpr
    rw [← Bool.not_eq_true, Options.failed_reportFile_iff]
    exact haccepts

/-- A file that is not there and one that makes no sense do not keep a third from being printed, in
each of the three forms. -/
theorem outcome_of_files_mixed :
    let files : Files := fun file =>
      if file = "none" then [.failed .missingFile]
      else if file = "odd" then [.bytes "x".toUTF8]
      else [.bytes "generations:1\nangle:25.7\nscale:1\naxiom:F\nF(.5)->".toUTF8,
        .bytes "X".toUTF8]
    let arguments := ["none", "-c", "odd", "--", "even"]
    Request.ofArguments arguments = .process ⟨true, false, false, ["none", "odd", "even"]⟩ ∧
      (outcomeOf files arguments).exitCode = 1 ∧
      (outcomeOf files arguments).output =
        "generations:1\nangle:25.7\nscale:1\naxiom:F\nF (0.5) -> X\n" ∧
      Request.ofArguments ["even"] = .process ⟨false, false, false, ["even"]⟩ ∧
      (outcomeOf files ["even"]).output =
        "even: 1 generations, angle 25.7, scale 1, 1 axiom symbols, " ++
          "1 productions for 1 predecessors\n" ∧
      Request.ofArguments ["-d", "even"] = .process ⟨false, true, false, ["even"]⟩ ∧
      (outcomeOf files ["-d", "even"]).output =
        "LSystem \x7b\n" ++
        "    generations: 1,\n" ++
        "    angle: 25.7,\n" ++
        "    scale: 1.0,\n" ++
        "    axiom: [\n        MoveForward,\n    ],\n" ++
        "    productions: \x7b\n" ++
        "        MoveForward: [\n" ++
        "            Production \x7b\n" ++
        "                probability: 0.5,\n" ++
        "                successor: [\n" ++
        "                    Word(\n                        'X',\n                    ),\n" ++
        "                ],\n" ++
        "            \x7d,\n" ++
        "        ],\n" ++
        "    \x7d,\n" ++
        "\x7d\n" := by
  intro files arguments
  let even : Model := ⟨1, .ofDecimal false ⟨257, -1⟩, .one, [.moveForward],
    .ofList [(.moveForward, ⟨.ofDecimal false ⟨5, -1⟩, [.letter 'X']⟩)]⟩
  have hread : Model.parseReads (files "even") = .ok even := by decide +kernel
  have haccepts (options : Options) (hstrict : options.strict = false) :
      ¬options.Rejects (files "even") := fun h => by
    simp [(Options.rejects_iff_of_ok hread).mp h] at hstrict
  have hshown {arguments : List String} {options : Options}
      (h : Request.ofArguments arguments = .process options) (hstrict : options.strict = false)
      (hfile : "even" ∈ fileNames arguments) :
      (outcomeAlone files arguments "even").output =
        if options.canonical then even.canonical
        else if options.outline then even.nested ++ "\n"
        else "even: 1 generations, angle 25.7, scale 1, 1 axiom symbols, " ++
          "1 productions for 1 predecessors\n" := by
    obtain ⟨-, hfiles⟩ := outcome_of_files files h
    obtain ⟨-, -, -, haccepted⟩ := hfiles "even" hfile
    obtain ⟨-, text, model, hgather, hparse, houtput⟩ := haccepted (haccepts options hstrict)
    obtain rfl : even = model := Except.ok.inj
      (hread.symm.trans (Model.parseReads_eq_ok_iff.mpr ⟨text, hgather, hparse⟩))
    rw [houtput]
    split
    · rfl
    · split
      · rfl
      · decide +kernel
  have hmixed : Request.ofArguments arguments =
      .process ⟨true, false, false, ["none", "odd", "even"]⟩ := by decide +kernel
  have hplain : Request.ofArguments ["even"] = .process ⟨false, false, false, ["even"]⟩ := by
    decide +kernel
  have houtline : Request.ofArguments ["-d", "even"] =
      .process ⟨false, true, false, ["even"]⟩ := by decide +kernel
  have hnames : fileNames arguments = ["none", "odd", "even"] := by decide +kernel
  have hmissing := @Options.Rejects.unreadable ⟨true, false, false, ["none", "odd", "even"]⟩
    (files "none") _ rfl
  have hmalformed := @Options.Rejects.malformed ⟨true, false, false, ["none", "odd", "even"]⟩
    (files "odd") "x" ⟨⟨none, 1, 1⟩, .expected .generations "x"⟩ (by decide +kernel)
    (by decide +kernel)
  obtain ⟨hall, hfiles⟩ := outcome_of_files files hmixed
  rw [hnames] at hall hfiles
  obtain ⟨-, hnone, hnoOutput, -⟩ := hfiles "none" (by decide)
  obtain ⟨-, -, hoddOutput, -⟩ := hfiles "odd" (by decide)
  refine ⟨hmixed, ?_, ?_, hplain, ?_, houtline, ?_⟩
  · rw [hall]
    apply Outcome.exitCode_combined_eq_one_iff.mpr
    exact ⟨_, List.mem_map_of_mem (by decide), hnone.mpr hmissing⟩
  · rw [hall]
    simp only [Outcome.output_combined, List.map_cons, List.map_nil, hnoOutput hmissing,
      hoddOutput hmalformed, hshown hmixed rfl (by decide +kernel)]
    decide +kernel
  · rw [output_of_fileNames hplain files "even" (by decide +kernel),
      hshown hplain rfl (by decide +kernel)]
    decide +kernel
  · rw [output_of_fileNames houtline files "even" (by decide +kernel),
      hshown houtline rfl (by decide +kernel)]
    decide +kernel

end CommandLine

end Lindenmayer
