import Lindenmayer.CommandLine.Arguments

namespace Lindenmayer

namespace CommandLine

namespace Options

def blank : Options :=
  ⟨false, false, false, []⟩

def has (options : Options) : Flag → Bool
  | .canonical => options.canonical
  | .outline => options.outline
  | .strict => options.strict
  | .version | .help => false

def merge (first second : Options) : Options :=
  ⟨first.canonical || second.canonical, first.outline || second.outline,
    first.strict || second.strict, first.files ++ second.files⟩

/-- No setting is made in both. -/
def Apart (first second : Options) : Prop :=
  ∀ flag, ¬(first.has flag = true ∧ second.has flag = true)

@[simp] theorem has_blank (flag : Flag) : blank.has flag = false := by
  cases flag <;> rfl

@[simp] theorem has_merge (first second : Options) (flag : Flag) :
    (first.merge second).has flag = (first.has flag || second.has flag) := by
  cases flag <;> rfl

@[simp] theorem files_merge (first second : Options) :
    (first.merge second).files = first.files ++ second.files := rfl

theorem merge_assoc (first second third : Options) :
    (first.merge second).merge third = first.merge (second.merge third) := by
  simp [merge, Bool.or_assoc]

theorem merge_right_comm (first second : Options) {third : Options} (h : third.files = []) :
    (first.merge second).merge third = (first.merge third).merge second := by
  simp [merge, h, Bool.or_right_comm]

@[simp] theorem merge_blank (options : Options) : options.merge blank = options := by
  simp [merge, blank]

@[simp] theorem blank_merge (options : Options) : blank.merge options = options := by
  simp [merge, blank]

theorem apart_blank (options : Options) : options.Apart blank := by
  simp [Apart]

theorem blank_apart (options : Options) : blank.Apart options := by
  simp [Apart]

theorem Apart.symm {first second : Options} (h : first.Apart second) : second.Apart first :=
  fun flag hflag => h flag hflag.symm

theorem apart_merge_left {first second third : Options} :
    (first.merge second).Apart third ↔ first.Apart third ∧ second.Apart third := by
  simp only [Apart, has_merge, Bool.or_eq_true, or_and_right, not_or, forall_and]

theorem apart_merge_right {first second third : Options} :
    first.Apart (second.merge third) ↔ first.Apart second ∧ first.Apart third := by
  simp only [Apart, has_merge, Bool.or_eq_true, and_or_left, not_or, forall_and]

end Options

open Options

/-- A step adds what it would add to nothing, unless that makes a setting again. Steps that do not
succeed leave no options to process. -/
structure Extends (step : Options → Except Request Options) : Prop where
  ok_iff : ∀ options after, step options = .ok after ↔
    ∃ added, step blank = .ok added ∧ options.Apart added ∧ after = options.merge added
  refuses : ∀ options request processed, step options = .error request →
    request ≠ .process processed

theorem extends_ok : Extends .ok where
  ok_iff options after := by
    simp [apart_blank, eq_comm]
  refuses := nofun

theorem extends_error {request : Request} (h : ∀ options, request ≠ .process options) :
    Extends fun _ => .error request where
  ok_iff := by simp
  refuses options found processed hfound := by
    obtain rfl := Except.error.inj hfound
    exact h processed

def andThen (first second : Options → Except Request Options) (options : Options) :
    Except Request Options :=
  match first options with
  | .ok options => second options
  | .error request => .error request

theorem andThen_eq_ok_iff {first second : Options → Except Request Options}
    {options after : Options} :
    andThen first second options = .ok after ↔
      ∃ middle, first options = .ok middle ∧ second middle = .ok after := by
  unfold andThen
  cases first options <;> simp

theorem extends_andThen {first second : Options → Except Request Options} (hfirst : Extends first)
    (hsecond : Extends second) : Extends (andThen first second) where
  ok_iff options after := by
    simp only [andThen_eq_ok_iff]
    constructor
    · rintro ⟨middle, hmiddle, hafter⟩
      obtain ⟨left, hleft, hapart, rfl⟩ := (hfirst.ok_iff _ _).mp hmiddle
      obtain ⟨right, hright, hboth, rfl⟩ := (hsecond.ok_iff _ _).mp hafter
      obtain ⟨hoptions, hleftRight⟩ := apart_merge_left.mp hboth
      exact ⟨left.merge right,
        ⟨left, hleft, (hsecond.ok_iff _ _).mpr ⟨right, hright, hleftRight, rfl⟩⟩,
        apart_merge_right.mpr ⟨hapart, hoptions⟩, merge_assoc _ _ _⟩
    · rintro ⟨added, ⟨left, hleft, hadded⟩, hapart, rfl⟩
      obtain ⟨right, hright, hleftRight, rfl⟩ := (hsecond.ok_iff _ _).mp hadded
      obtain ⟨hoptions, hboth⟩ := apart_merge_right.mp hapart
      exact ⟨options.merge left, (hfirst.ok_iff _ _).mpr ⟨left, hleft, hoptions, rfl⟩,
        (hsecond.ok_iff _ _).mpr
          ⟨right, hright, apart_merge_left.mpr ⟨hboth, hleftRight⟩, (merge_assoc _ _ _).symm⟩⟩
  refuses options request processed h := by
    unfold andThen at h
    split at h
    · exact hsecond.refuses _ _ _ h
    · rename_i found hfound
      obtain rfl := Except.error.inj h
      exact hfirst.refuses _ _ _ hfound

theorem extends_of_merge {step : Options → Except Request Options} {added : Options}
    (h : ∀ options after, step options = .ok after ↔
      options.Apart added ∧ after = options.merge added)
    (refuses : ∀ options request processed, step options = .error request →
      request ≠ .process processed) : Extends step where
  ok_iff options after := by
    have hblank : ∀ found, step blank = .ok found ↔ found = added := by
      simp [h, blank_apart]
    simp only [hblank, exists_eq_left, h]
  refuses := refuses

def Flag.setting : Flag → Options
  | canonical => ⟨true, false, false, []⟩
  | outline => ⟨false, true, false, []⟩
  | strict => ⟨false, false, true, []⟩
  | version | help => blank

@[simp] theorem Flag.files_setting (flag : Flag) : flag.setting.files = [] := by
  cases flag <;> rfl

def Flag.request? : Flag → Option Request
  | version => some .version
  | help => some .help
  | canonical | outline | strict => none

theorem setFlag_eq (options : Options) (flag : Flag) :
    options.setFlag flag =
      match flag.request? with
      | some request => .error request
      | none => if options.has flag then .error .refused else .ok (options.merge flag.setting) := by
  cases flag <;> simp [setFlag, Flag.request?, Flag.setting, has, merge]

theorem has_setting {flag : Flag} (h : flag.request? = none) (other : Flag) :
    flag.setting.has other = decide (other = flag) := by
  cases flag <;> cases other <;> first | rfl | contradiction

theorem apart_setting_iff {options : Options} {flag : Flag} (h : flag.request? = none) :
    options.Apart flag.setting ↔ options.has flag = false := by
  rw [← Bool.not_eq_true]
  constructor
  · exact fun hapart hflag => hapart flag ⟨hflag, by simp [has_setting h]⟩
  · rintro hflag other ⟨hoptions, hother⟩
    rw [has_setting h, decide_eq_true_iff] at hother
    exact hflag (hother ▸ hoptions)

theorem extends_setFlag (flag : Flag) : Extends fun options => options.setFlag flag := by
  cases hflag : flag.request? with
  | some request =>
      simp only [setFlag_eq, hflag]
      refine extends_error ?_
      rintro options rfl
      cases flag <;> cases hflag
  | none =>
      simp only [setFlag_eq, hflag]
      refine @extends_of_merge _ flag.setting (fun options after => ?_) ?_
      · rw [apart_setting_iff hflag]
        cases options.has flag <;> simp [eq_comm]
      · intro options request processed h
        split at h
        · obtain rfl := Except.error.inj h
          nofun
        · contradiction

theorem extends_setLetters (letters : List Char) :
    Extends fun options => options.setLetters letters := by
  induction letters with
  | nil => exact extends_ok
  | cons letter rest ih =>
      cases hflag : Flag.ofLetter? letter with
      | none =>
          simp only [setLetters, hflag]
          exact extends_error nofun
      | some flag =>
          simp only [setLetters, hflag]
          exact extends_andThen (extends_setFlag flag) ih

theorem extends_addFile (file : String) : Extends fun options => options.addFile file := by
  by_cases hfile : file = ""
  · simp only [addFile, if_pos hfile]
    exact extends_error nofun
  · simp only [addFile, if_neg hfile]
    refine @extends_of_merge _ ⟨false, false, false, [file]⟩ (fun options after => ?_) nofun
    have hapart : options.Apart ⟨false, false, false, [file]⟩ := options.apart_blank
    simp [hapart, merge, eq_comm]

theorem extends_addArgument (argument : String) :
    Extends fun options => options.addArgument argument := by
  unfold addArgument
  split
  · rename_i name _
    split
    · exact extends_error nofun
    · exact extends_setFlag _
  · exact extends_setLetters _
  · exact extends_addFile argument

theorem extends_addFiles (files : List String) : Extends fun options => options.addFiles files := by
  induction files with
  | nil => exact extends_ok
  | cons file rest ih => exact extends_andThen (extends_addFile file) ih

theorem extends_addArguments (arguments : List String) :
    Extends fun options => options.addArguments arguments := by
  induction arguments with
  | nil => exact extends_ok
  | cons argument rest ih =>
      by_cases hend : argument = "--"
      · simp only [addArguments, if_pos hend]
        exact extends_addFiles rest
      · simp only [addArguments, if_neg hend]
        exact extends_andThen (extends_addArgument argument) ih

/-- More than a dash, and a dash in front. -/
def isFlag (argument : String) : Bool :=
  match argument.toList with
  | '-' :: _ :: _ => true
  | _ => false

/-- The arguments that do not name files. -/
def flags : List String → List String
  | [] => []
  | argument :: rest =>
      if argument = "--" then []
      else if isFlag argument then argument :: flags rest else flags rest

def fileNames : List String → List String
  | [] => []
  | argument :: rest =>
      if argument = "--" then rest
      else if isFlag argument then fileNames rest else argument :: fileNames rest

theorem files_of_setFlag {options after : Options} {flag : Flag}
    (h : options.setFlag flag = .ok after) : after.files = options.files := by
  rw [setFlag_eq] at h
  split at h
  · contradiction
  · split at h
    · contradiction
    · obtain rfl := Except.ok.inj h
      simp [merge]

theorem files_of_setLetters {options after : Options} {letters : List Char}
    (h : options.setLetters letters = .ok after) : after.files = options.files := by
  induction letters generalizing options with
  | nil =>
      obtain rfl := Except.ok.inj h
      rfl
  | cons letter rest ih =>
      rw [setLetters] at h
      split at h
      · contradiction
      · split at h
        · rename_i hflag
          exact (ih h).trans (files_of_setFlag hflag)
        · contradiction

theorem files_of_flag {argument : String} {options after : Options}
    (hargument : isFlag argument = true) (h : options.addArgument argument = .ok after) :
    after.files = options.files := by
  unfold isFlag at hargument
  unfold addArgument at h
  split at h
  · split at h
    · contradiction
    · exact files_of_setFlag h
  · exact files_of_setLetters h
  · split at hargument <;> simp_all

theorem addArgument_of_not_isFlag {argument : String} (h : isFlag argument = false)
    (options : Options) : options.addArgument argument = options.addFile argument := by
  unfold isFlag at h
  unfold addArgument
  split <;> simp_all

theorem addFiles_eq_ok_iff {names : List String} {options after : Options} :
    options.addFiles names = .ok after ↔
      (∀ name ∈ names, name ≠ "") ∧ after = { options with files := options.files ++ names } := by
  induction names generalizing options with
  | nil => simp [addFiles, eq_comm]
  | cons name rest ih =>
      rw [addFiles, addFile, List.forall_mem_cons]
      by_cases hname : name = ""
      · rw [if_pos hname]
        exact ⟨nofun, fun h => absurd hname h.1.1⟩
      · rw [if_neg hname]
        simp [ih, hname]

theorem addArguments_end (options : Options) (names : List String) :
    options.addArguments ("--" :: names) = options.addFiles names := by
  rw [addArguments, if_pos rfl]

theorem addArguments_cons {argument : String} (h : argument ≠ "--") (rest : List String) :
    (fun options => addArguments options (argument :: rest)) =
      andThen (fun options => options.addArgument argument)
        fun options => options.addArguments rest := by
  funext options
  rw [addArguments, if_neg h]
  rfl

theorem addArguments_cons_eq_ok_iff {argument : String} (h : argument ≠ "--")
    {rest : List String} {options : Options} :
    blank.addArguments (argument :: rest) = .ok options ↔
      ∃ first others, blank.addArgument argument = .ok first ∧
        blank.addArguments rest = .ok others ∧ first.Apart others ∧
        options = first.merge others := by
  rw [congrFun (addArguments_cons h rest) blank, andThen_eq_ok_iff]
  have hrest := (extends_addArguments rest).ok_iff
  constructor
  · rintro ⟨first, hfirst, h⟩
    obtain ⟨others, hothers, hapart, rfl⟩ := (hrest _ _).mp h
    exact ⟨first, others, hfirst, hothers, hapart, rfl⟩
  · rintro ⟨first, others, hfirst, hothers, hapart, rfl⟩
    exact ⟨first, hfirst, (hrest _ _).mpr ⟨others, hothers, hapart, rfl⟩⟩

theorem addFile_eq_ok_iff {name : String} {added : Options} :
    blank.addFile name = .ok added ↔ name ≠ "" ∧ added = ⟨false, false, false, [name]⟩ := by
  rw [addFile]
  split
  · rename_i hname
    exact ⟨nofun, fun h => absurd hname h.1⟩
  · rename_i hname
    rw [Except.ok.injEq, eq_comm]
    exact (and_iff_right hname).symm

theorem files_of_addArguments {arguments : List String} {options : Options}
    (h : blank.addArguments arguments = .ok options) :
    options.files = fileNames arguments ∧ ∀ file ∈ options.files, file ≠ "" := by
  induction arguments generalizing options with
  | nil =>
      obtain rfl := Except.ok.inj h
      exact ⟨rfl, nofun⟩
  | cons argument rest ih =>
      by_cases hend : argument = "--"
      · subst hend
        rw [addArguments_end, addFiles_eq_ok_iff] at h
        obtain ⟨hnames, rfl⟩ := h
        exact ⟨rfl, hnames⟩
      · obtain ⟨first, others, hfirst, hothers, -, rfl⟩ := (addArguments_cons_eq_ok_iff hend).mp h
        obtain ⟨hfiles, hnames⟩ := ih hothers
        rw [fileNames, if_neg hend]
        cases hflag : isFlag argument with
        | true =>
            have hnone : first.files = [] := files_of_flag hflag hfirst
            rw [if_pos rfl, files_merge, hnone]
            exact ⟨hfiles, hnames⟩
        | false =>
            rw [addArgument_of_not_isFlag hflag, addFile_eq_ok_iff] at hfirst
            obtain ⟨hargument, rfl⟩ := hfirst
            rw [if_neg Bool.false_ne_true]
            exact ⟨congrArg _ hfiles, List.forall_mem_cons.mpr ⟨hargument, hnames⟩⟩

theorem addArguments_flags {arguments names : List String} {options : Options}
    (h : blank.addArguments arguments = .ok options) (hnames : ∀ name ∈ names, name ≠ "") :
    blank.addArguments (flags arguments ++ "--" :: names) =
      .ok { options with files := names } := by
  induction arguments generalizing options with
  | nil =>
      obtain rfl := Except.ok.inj h
      rw [flags, List.nil_append, addArguments_end]
      exact addFiles_eq_ok_iff.mpr ⟨hnames, rfl⟩
  | cons argument rest ih =>
      by_cases hend : argument = "--"
      · subst hend
        rw [addArguments_end, addFiles_eq_ok_iff] at h
        obtain ⟨-, rfl⟩ := h
        rw [flags, if_pos rfl, List.nil_append, addArguments_end]
        exact addFiles_eq_ok_iff.mpr ⟨hnames, rfl⟩
      · obtain ⟨first, others, hfirst, hothers, hapart, rfl⟩ :=
          (addArguments_cons_eq_ok_iff hend).mp h
        rw [flags, if_neg hend]
        cases hflag : isFlag argument with
        | true =>
            have hnone : first.files = [] := files_of_flag hflag hfirst
            rw [if_pos rfl, List.cons_append, addArguments_cons_eq_ok_iff hend]
            refine ⟨first, _, hfirst, ih hothers, ?_, ?_⟩
            · intro flag
              have := hapart flag
              cases flag <;> exact this
            · simp [merge, hnone]
        | false =>
            rw [addArgument_of_not_isFlag hflag, addFile_eq_ok_iff] at hfirst
            obtain ⟨-, rfl⟩ := hfirst
            rw [if_neg (by simp), ih hothers]
            simp [merge]

theorem addArguments_append {front : List String} (h : "--" ∉ front) (back : List String) :
    (fun options => addArguments options (front ++ back)) =
      andThen (fun options => options.addArguments front)
        fun options => options.addArguments back := by
  induction front with
  | nil => rfl
  | cons argument rest ih =>
      rw [List.mem_cons, not_or] at h
      rw [List.cons_append, addArguments_cons (Ne.symm h.1), ih h.2,
        addArguments_cons (Ne.symm h.1)]
      funext options
      simp only [andThen]
      cases options.addArgument argument <;> rfl

theorem addArguments_insert {front back : List String} {argument : String}
    {options added : Options} (hfront : "--" ∉ front) (hargument : argument ≠ "--")
    (h : blank.addArguments (front ++ back) = .ok options)
    (hadded : blank.addArgument argument = .ok added) (hapart : options.Apart added)
    (hfiles : added.files = []) :
    blank.addArguments (front ++ argument :: back) = .ok (options.merge added) := by
  have happend (behind : List String) := congrFun (addArguments_append hfront behind) blank
  rw [happend, andThen_eq_ok_iff] at h
  obtain ⟨middle, hmiddle, hback⟩ := h
  obtain ⟨others, hothers, hboth, rfl⟩ := ((extends_addArguments back).ok_iff _ _).mp hback
  obtain ⟨hmiddleAdded, hothersAdded⟩ := apart_merge_left.mp hapart
  have hargumentRun := ((extends_addArgument argument).ok_iff middle _).mpr
    ⟨added, hadded, hmiddleAdded, rfl⟩
  have hbackRun := ((extends_addArguments back).ok_iff (middle.merge added) _).mpr
    ⟨others, hothers, apart_merge_left.mpr ⟨hboth, hothersAdded.symm⟩, rfl⟩
  rw [happend, andThen_eq_ok_iff]
  refine ⟨middle, hmiddle, ?_⟩
  rw [congrFun (addArguments_cons hargument back) middle, andThen_eq_ok_iff]
  refine ⟨_, hargumentRun, ?_⟩
  rw [merge_right_comm _ _ hfiles]
  exact hbackRun

theorem ofArguments_eq_process_iff {arguments : List String} {options : Options} :
    Request.ofArguments arguments = .process options ↔
      blank.addArguments arguments = .ok options ∧ options.IsComplete := by
  have hrefuses := (extends_addArguments arguments).refuses blank
  rw [Request.ofArguments, ← blank]
  cases hadd : blank.addArguments arguments with
  | error request => exact ⟨fun h => absurd h (hrefuses request options hadd), nofun⟩
  | ok found =>
      dsimp only
      constructor
      · intro h
        split at h
        · rename_i hcomplete
          obtain rfl := Request.process.inj h
          exact ⟨rfl, hcomplete⟩
        · contradiction
      · rintro ⟨hfound, hcomplete⟩
        obtain rfl := Except.ok.inj hfound
        rw [if_pos hcomplete]

theorem files_of_ofArguments {arguments : List String} {options : Options}
    (h : Request.ofArguments arguments = .process options) :
    options.files = fileNames arguments ∧ ∀ file ∈ fileNames arguments, file ≠ "" := by
  obtain ⟨hadd, -⟩ := ofArguments_eq_process_iff.mp h
  obtain ⟨hfiles, hnames⟩ := files_of_addArguments hadd
  exact ⟨hfiles, hfiles ▸ hnames⟩

theorem ofArguments_flags {arguments : List String} {options : Options}
    (h : Request.ofArguments arguments = .process options) {file : String} (hfile : file ≠ "") :
    Request.ofArguments (flags arguments ++ ["--", file]) =
      .process { options with files := [file] } := by
  obtain ⟨hadd, hcomplete⟩ := ofArguments_eq_process_iff.mp h
  have hnames : ∀ name ∈ [file], name ≠ "" := List.forall_mem_singleton.mpr hfile
  exact ofArguments_eq_process_iff.mpr
    ⟨addArguments_flags hadd hnames, List.cons_ne_nil _ _, hcomplete.2⟩

theorem ofArguments_insert_strict {front back : List String} {argument : String}
    {options : Options} (hfront : "--" ∉ front) (hargument : argument ∈ ["-s", "--strict"])
    (h : Request.ofArguments (front ++ back) = .process options)
    (hstrict : options.strict = false) :
    Request.ofArguments (front ++ argument :: back) =
      .process { options with strict := true } := by
  obtain ⟨hadd, hfiles, hforms⟩ := ofArguments_eq_process_iff.mp h
  obtain ⟨hnot, hadded⟩ : argument ≠ "--" ∧
      blank.addArgument argument = .ok Flag.strict.setting := by
    simp only [List.mem_cons, List.not_mem_nil, or_false] at hargument
    rcases hargument with rfl | rfl
    · exact ⟨by decide, rfl⟩
    · exact ⟨by decide, rfl⟩
  have hinsert := addArguments_insert hfront hnot hadd hadded
    ((apart_setting_iff rfl).mpr hstrict) rfl
  have hmerge : options.merge Flag.strict.setting = { options with strict := true } := by
    simp [merge, Flag.setting]
  rw [hmerge] at hinsert
  exact ofArguments_eq_process_iff.mpr ⟨hinsert, hfiles, hforms⟩

end CommandLine

end Lindenmayer
