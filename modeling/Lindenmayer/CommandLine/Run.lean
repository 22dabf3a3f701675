import Lindenmayer.Balance
import Lindenmayer.CommandLine.Arguments
import Lindenmayer.Document.Canonical
import Lindenmayer.Outline
import Lindenmayer.Stream

namespace Lindenmayer

namespace CommandLine

/-- Text for the two output channels, and whether something went wrong. -/
structure Report where
  output : String
  errors : String
  failed : Bool
  deriving DecidableEq

namespace Report

def empty : Report :=
  ⟨"", "", false⟩

def append (first second : Report) : Report :=
  ⟨first.output ++ second.output, first.errors ++ second.errors, first.failed || second.failed⟩

instance : Append Report := ⟨append⟩

def exitCode (report : Report) : UInt32 :=
  if report.failed then 1 else 0

@[simp] theorem output_append (first second : Report) :
    (first ++ second).output = first.output ++ second.output := rfl

@[simp] theorem errors_append (first second : Report) :
    (first ++ second).errors = first.errors ++ second.errors := rfl

@[simp] theorem failed_append (first second : Report) :
    (first ++ second).failed = (first.failed || second.failed) := rfl

end Report

def summary (file : String) (model : Model) : String :=
  file ++ ": " ++ toString model.generations.toNat ++ " generations, angle " ++
    .ofList model.angle.text ++ ", scale " ++ .ofList model.scale.text ++ ", " ++
    toString model.seed.length ++ " axiom symbols, " ++
    toString model.productions.count ++ " productions for " ++
    toString model.productions.entries.length ++ " predecessors"

def Options.render (options : Options) (file : String) (model : Model) : String :=
  if options.canonical then model.canonical
  else if options.outline then model.outlineText ++ "\n"
  else summary file model ++ "\n"

def warningLine (file : String) (imbalance : Imbalance) : String :=
  file ++ ": warning: " ++ imbalance.message ++ "\n"

def refusalLine (file : String) (imbalances : List Imbalance) : String :=
  file ++ ": " ++ toString imbalances.length ++ " warning(s) treated as errors\n"

def Options.reportModel (options : Options) (file : String) (model : Model) : Report :=
  let warnings := String.join (model.imbalances.map (warningLine file))
  if options.strict ∧ model.imbalances ≠ [] then
    ⟨"", warnings ++ refusalLine file model.imbalances, true⟩
  else ⟨options.render file model, warnings, false⟩

abbrev Files := String → List Read

def Options.reportFile (options : Options) (files : Files) (file : String) : Report :=
  match Model.parseReads (files file) with
  | .error error => ⟨"", (error.inFile file).display ++ "\n", true⟩
  | .ok model => options.reportModel file model

def Options.report (options : Options) (files : Files) : Report :=
  options.files.foldr (fun file rest => options.reportFile files file ++ rest) .empty

def versionText : String :=
  "lsystem 0.1.0\n"

structure Outcome where
  exitCode : UInt32
  output : String
  errors : String
  deriving DecidableEq

/-- Of help and of a refusal only the exit code is given; their wording is left out. -/
def Request.outcome (files : Files) : Request → Outcome
  | process options =>
      let report := options.report files
      ⟨report.exitCode, report.output, report.errors⟩
  | version => ⟨0, versionText, ""⟩
  | help => ⟨0, "", ""⟩
  | refused => ⟨2, "", ""⟩

def Request.files : Request → List String
  | process options => options.files
  | _ => []

end CommandLine

end Lindenmayer
