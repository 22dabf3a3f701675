/-! The first argument that settles what happens does so whatever follows it. -/

namespace Lindenmayer

namespace CommandLine

structure Options where
  canonical : Bool
  outline : Bool
  strict : Bool
  files : List String
  deriving DecidableEq

inductive Request where
  | process (options : Options)
  | version
  | help
  | refused
  deriving DecidableEq

inductive Flag where
  | canonical
  | outline
  | strict
  | version
  | help
  deriving DecidableEq

def Flag.ofLetter? : Char → Option Flag
  | 'c' => some canonical
  | 'd' => some outline
  | 's' => some strict
  | 'V' => some version
  | 'h' => some help
  | _ => none

def Flag.ofName? (name : String) : Option Flag :=
  if name = "canonical" then some canonical
  else if name = "debug" then some outline
  else if name = "strict" then some strict
  else if name = "version" then some version
  else if name = "help" then some help
  else none

/-- A setting may be made once. -/
def Options.setFlag (options : Options) : Flag → Except Request Options
  | .canonical =>
      if options.canonical then .error .refused else .ok { options with canonical := true }
  | .outline =>
      if options.outline then .error .refused else .ok { options with outline := true }
  | .strict =>
      if options.strict then .error .refused else .ok { options with strict := true }
  | .version => .error .version
  | .help => .error .help

def Options.setLetters (options : Options) : List Char → Except Request Options
  | [] => .ok options
  | letter :: rest =>
      match Flag.ofLetter? letter with
      | none => .error .refused
      | some flag =>
          match options.setFlag flag with
          | .ok options => options.setLetters rest
          | .error request => .error request

def Options.addFile (options : Options) (file : String) : Except Request Options :=
  if file = "" then .error .refused else .ok { options with files := options.files ++ [file] }

/-- A dash by itself names a file. -/
def Options.addArgument (options : Options) (argument : String) : Except Request Options :=
  match argument.toList with
  | '-' :: '-' :: name =>
      match Flag.ofName? (.ofList name) with
      | none => .error .refused
      | some flag => options.setFlag flag
  | '-' :: letter :: letters => options.setLetters (letter :: letters)
  | _ => options.addFile argument

def Options.addFiles (options : Options) : List String → Except Request Options
  | [] => .ok options
  | file :: rest =>
      match options.addFile file with
      | .ok options => options.addFiles rest
      | .error request => .error request

/-- Two dashes make files of all arguments behind them. -/
def Options.addArguments (options : Options) : List String → Except Request Options
  | [] => .ok options
  | argument :: rest =>
      if argument = "--" then options.addFiles rest
      else
        match options.addArgument argument with
        | .ok options => options.addArguments rest
        | .error request => .error request

/-- There has to be a file, and one form of output. -/
def Options.IsComplete (options : Options) : Prop :=
  options.files ≠ [] ∧ ¬(options.canonical = true ∧ options.outline = true)

instance (options : Options) : Decidable options.IsComplete :=
  inferInstanceAs (Decidable (_ ∧ _))

def Request.ofArguments (arguments : List String) : Request :=
  match Options.addArguments ⟨false, false, false, []⟩ arguments with
  | .error request => request
  | .ok options => if options.IsComplete then .process options else .refused

end CommandLine

end Lindenmayer
