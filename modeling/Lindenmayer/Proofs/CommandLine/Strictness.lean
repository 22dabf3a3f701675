import Lindenmayer.Proofs.CommandLine.Reports

namespace Lindenmayer

namespace CommandLine

/-- What there is to say against the model of a file, if it has one. -/
def warnings (files : Files) (file : String) : List Imbalance :=
  match Model.parseReads (files file) with
  | .error _ => []
  | .ok model => model.imbalances

/-- What is left of an outcome when warnings are errors. -/
def Outcome.promoted (outcome : Outcome) (file : String) (imbalances : List Imbalance) : Outcome :=
  if imbalances = [] then outcome
  else ⟨1, "", outcome.errors ++ refusalLine file imbalances⟩

section

variable {options : Options} {files : Files} {file : String} {model : Model}

theorem reportModel_of_balanced (h : model.imbalances = []) :
    options.reportModel file model = ⟨options.render file model, "", false⟩ := by
  rw [Options.reportModel, h]
  exact if_neg fun hrefused => hrefused.2 rfl

theorem reportModel_of_plain (h : options.strict = false) :
    options.reportModel file model =
      ⟨options.render file model, .join (model.imbalances.map (warningLine file)), false⟩ := by
  rw [Options.reportModel, h]
  exact if_neg fun hrefused => Bool.false_ne_true hrefused.1

theorem reportModel_of_strict (h : options.strict = true) (hwarnings : model.imbalances ≠ []) :
    options.reportModel file model =
      ⟨"", .join (model.imbalances.map (warningLine file)) ++ refusalLine file model.imbalances,
        true⟩ := by
  rw [Options.reportModel, h]
  exact if_pos ⟨rfl, hwarnings⟩

theorem outcome_reportFile_strict (h : options.strict = false) :
    (({ options with strict := true } : Options).reportFile files file).outcome =
      (options.reportFile files file).outcome.promoted file (warnings files file) := by
  unfold warnings Options.reportFile
  cases Model.parseReads (files file) with
  | error error => rfl
  | ok model =>
      dsimp only
      by_cases hbalance : model.imbalances = []
      · rw [Outcome.promoted, if_pos hbalance, reportModel_of_balanced hbalance,
          reportModel_of_balanced hbalance]
        rfl
      · rw [Outcome.promoted, if_neg hbalance, reportModel_of_strict rfl hbalance,
          reportModel_of_plain h]
        rfl

theorem errors_reportFile_of_warnings (h : options.strict = false)
    (hwarnings : warnings files file ≠ []) :
    (options.reportFile files file).errors =
      .join ((warnings files file).map (warningLine file)) := by
  unfold warnings at hwarnings ⊢
  unfold Options.reportFile
  cases hread : Model.parseReads (files file) with
  | error error =>
      rw [hread] at hwarnings
      contradiction
  | ok model =>
      dsimp only
      rw [reportModel_of_plain h]

end

section

variable {arguments strictly : List String} {options : Options}

theorem outcomeOf_strict (h : Request.ofArguments arguments = .process options)
    (hstrict : Request.ofArguments strictly = .process { options with strict := true })
    (hplain : options.strict = false) (files : Files) :
    outcomeOf files strictly =
      .combined ((fileNames arguments).map fun file =>
        (outcomeAlone files arguments file).promoted file (warnings files file)) := by
  have hnames : fileNames strictly = fileNames arguments :=
    (files_of_ofArguments hstrict).1.symm.trans (files_of_ofArguments h).1
  rw [outcomeOf_eq hstrict, hnames]
  apply congrArg
  apply List.map_congr_left
  intro file hfile
  rw [outcomeAlone_eq h files hfile]
  exact outcome_reportFile_strict hplain

end

theorem join_filter {Name : Type} (text : Name → String) (keep : Name → Prop) [DecidablePred keep]
    (names : List Name) :
    String.join (names.map fun name => if keep name then text name else "") =
      .join ((names.filter fun name => keep name).map text) := by
  induction names with
  | nil => rfl
  | cons name rest ih =>
      rw [List.map_cons, String.join_cons, ih]
      by_cases hname : keep name
      · simp [hname]
      · simp [hname]

namespace Outcome

variable {outcome : Outcome} {file : String} {imbalances : List Imbalance}

theorem output_promoted :
    (outcome.promoted file imbalances).output = if imbalances = [] then outcome.output else "" := by
  rw [promoted]
  split <;> rfl

theorem errors_promoted :
    (outcome.promoted file imbalances).errors =
      outcome.errors ++ if imbalances = [] then "" else refusalLine file imbalances := by
  rw [promoted]
  split
  · exact String.append_empty.symm
  · rfl

theorem exitCode_promoted_ne_one_iff :
    (outcome.promoted file imbalances).exitCode ≠ 1 ↔
      outcome.exitCode ≠ 1 ∧ imbalances = [] := by
  rw [promoted]
  split <;> simp_all

end Outcome

theorem exitCode_promoted_all_iff {names : List String} {alone : String → Outcome}
    {imbalances : String → List Imbalance} :
    (Outcome.combined (names.map fun file =>
        (alone file).promoted file (imbalances file))).exitCode = 0 ↔
      (Outcome.combined (names.map alone)).exitCode = 0 ∧ ∀ file ∈ names, imbalances file = [] := by
  simp only [Outcome.exitCode_combined_eq_zero_iff, List.forall_mem_map,
    Outcome.exitCode_promoted_ne_one_iff]
  exact forall₂_and

theorem promoted_all_of_balanced {names : List String} {alone : String → Outcome}
    {imbalances : String → List Imbalance} (h : ∀ file ∈ names, imbalances file = []) :
    (names.map fun file => (alone file).promoted file (imbalances file)) = names.map alone := by
  apply List.map_congr_left
  intro file hfile
  exact if_pos (h file hfile)

/-- Warnings that are made errors cost the files that are warned about their output, and earn them a
line more behind their warnings. Without them nothing is different. -/
theorem outcome_of_strict (files : Files) {arguments : List String} {options : Options}
    (h : Request.ofArguments arguments = .process options) (hplain : options.strict = false) :
    (∀ front back argument, arguments = front ++ back → "--" ∉ front →
      argument ∈ ["-s", "--strict"] →
      Request.ofArguments (front ++ argument :: back) =
        .process { options with strict := true }) ∧
    ∀ strictly, Request.ofArguments strictly = .process { options with strict := true } →
      let names := fileNames arguments
      let alone := outcomeAlone files arguments
      let plain := outcomeOf files arguments
      let strict := outcomeOf files strictly
      plain.output = .join (names.map fun file => (alone file).output) ∧
        strict.output = .join ((names.filter fun file => warnings files file = []).map fun file =>
          (alone file).output) ∧
        plain.errors = .join (names.map fun file => (alone file).errors) ∧
        strict.errors = .join (names.map fun file => (alone file).errors ++
          if warnings files file = [] then "" else refusalLine file (warnings files file)) ∧
        (∀ file ∈ names, warnings files file ≠ [] →
          (alone file).errors = .join ((warnings files file).map (warningLine file))) ∧
        (strict.exitCode = 0 ↔
          plain.exitCode = 0 ∧ ∀ file ∈ names, warnings files file = []) ∧
        (strict.exitCode = 0 → strict = plain) := by
  refine ⟨fun front back argument harguments hfront hargument => ?_, fun strictly hstrictly => ?_⟩
  · subst harguments
    exact ofArguments_insert_strict hfront hargument h hplain
  intro names alone plain strict
  have hall : plain = .combined (names.map alone) := outcomeOf_eq_of_alone h files
  have hpromoted : strict = .combined (names.map fun file =>
      (alone file).promoted file (warnings files file)) :=
    outcomeOf_strict h hstrictly hplain files
  have hexit : strict.exitCode = 0 ↔
      plain.exitCode = 0 ∧ ∀ file ∈ names, warnings files file = [] := by
    rw [hall, hpromoted]
    exact exitCode_promoted_all_iff
  refine ⟨?_, ?_, ?_, ?_, ?_, hexit, ?_⟩
  · rw [hall, Outcome.output_combined, List.map_map]
    rfl
  · rw [hpromoted, Outcome.output_combined, List.map_map, ← join_filter]
    simp only [Function.comp_def, Outcome.output_promoted]
  · rw [hall, Outcome.errors_combined, List.map_map]
    rfl
  · rw [hpromoted, Outcome.errors_combined, List.map_map]
    simp only [Function.comp_def, Outcome.errors_promoted]
  · intro file hfile hwarnings
    have halone : alone file = (options.reportFile files file).outcome :=
      outcomeAlone_eq h files hfile
    rw [halone]
    exact errors_reportFile_of_warnings hplain hwarnings
  · intro hzero
    rw [hpromoted, hall, promoted_all_of_balanced (hexit.mp hzero).2]

/-- Half a choice costs its file the output, and the other file nothing. -/
theorem outcome_of_strict_half :
    let files : Files := fun file =>
      if file = "half" then
        [.bytes "generations:1\nangle:0\nscale:1\naxiom:F\nF(0.5)->X".toUTF8]
      else [.bytes "generations:1\nangle:0\nscale:1\naxiom:F\nF->X".toUTF8]
    let strict := outcomeOf files ["half", "-c", "--strict", "whole"]
    Request.ofArguments ["half", "-c", "--strict", "whole"] =
        .process ⟨true, false, true, ["half", "whole"]⟩ ∧
      (outcomeOf files ["half", "-c", "whole"]).output =
        "generations:1\nangle:0\nscale:1\naxiom:F\nF (0.5) -> X\n" ++
          "generations:1\nangle:0\nscale:1\naxiom:F\nF -> X\n" ∧
      strict.output = "generations:1\nangle:0\nscale:1\naxiom:F\nF -> X\n" ∧
      strict.errors = "half: warning: Probabilities for `F` add up to 0.5 instead of 1\n" ++
        "half: 1 warning(s) treated as errors\n" ∧
      strict.exitCode ≠ 0 := by
  intro files strict
  have hplain : Request.ofArguments ["half", "-c", "whole"] =
      .process ⟨true, false, false, ["half", "whole"]⟩ := by decide +kernel
  have hwarnings : warnings files "half" ≠ [] := by decide +kernel
  obtain ⟨hinsert, hstrict⟩ := outcome_of_strict files hplain rfl
  have hstrictly := hinsert ["half", "-c"] ["whole"] "--strict" rfl (by decide) (by decide)
  obtain ⟨houtput, hfiltered, -, herrors, -, hexit, -⟩ := hstrict _ hstrictly
  refine ⟨hstrictly, ?_, ?_, ?_, ?_⟩
  · exact houtput.trans (by decide +kernel)
  · exact hfiltered.trans (by decide +kernel)
  · exact herrors.trans (by decide +kernel)
  · intro hzero
    exact hwarnings ((hexit.mp hzero).2 "half" (by decide +kernel))

end CommandLine

end Lindenmayer
