import SourcePreprocessor.Run

/-!
# The command line

Options have a long name after two dashes, and some a letter after one. An option's value follows
it, or is glued to it, with an equals sign (`--source=v`, `-s=v`, `-s v`, `-sv`); letters without a
value can share one dash. A value that starts with a dash must be glued. Two dashes alone end the
options. An argument that is no option names a configuration file after an at sign.

Reading the arguments either gives `Options` or refuses them; an option that takes one value and a
flag may be given once. No option shows a help text or the version: there are no such texts here,
and asking for them is refused like any unknown option.
-/

namespace SourcePreprocessor

/-- The options that take a value. -/
inductive ValueOption where
  | source
  | destination
  | extensions
  | excludeExtensions
  | marker
  | config
  | define
  deriving DecidableEq, Repr

/-- The options without a value. -/
inductive Flag where
  | keepLastEol
  | clear
  | noOutput
  | verbose
  | listDirectives
  deriving DecidableEq, Repr

/-- An option. -/
inductive CommandOption where
  | valued (option : ValueOption)
  | flag (flag : Flag)
  deriving DecidableEq, Repr

namespace CommandOption

/-- The long names. -/
def longNames : List (Text × CommandOption) := [
  ("source".toList, .valued .source),
  ("destination".toList, .valued .destination),
  ("extensions".toList, .valued .extensions),
  ("exclude-extensions".toList, .valued .excludeExtensions),
  ("prefix".toList, .valued .marker),
  ("config".toList, .valued .config),
  ("define".toList, .valued .define),
  ("keep-last-eol".toList, .flag .keepLastEol),
  ("clear".toList, .flag .clear),
  ("no-output".toList, .flag .noOutput),
  ("verbose".toList, .flag .verbose),
  ("list-directives".toList, .flag .listDirectives)]

/-- The letters. -/
def letters : List (Char × CommandOption) := [
  ('s', .valued .source),
  ('d', .valued .destination),
  ('e', .valued .extensions),
  ('c', .valued .config),
  ('D', .valued .define),
  ('v', .flag .verbose)]

end CommandOption

namespace ValueOption

/-- Whether the option may be given more than once. -/
def isRepeatable : ValueOption → Bool
  | .source | .config | .define => true
  | _ => false

/-- Whether the option's value is a path, which may not be empty. -/
def isPath : ValueOption → Bool
  | .source | .destination | .config => true
  | _ => false

end ValueOption

/-- What the arguments say, in their order. -/
structure Options where
  values : List (ValueOption × Text)
  flags : List Flag
  references : List Text

namespace Options

/-- No arguments. -/
def none : Options := ⟨[], [], []⟩

/-- The values of an option. -/
def valuesOf (o : Options) (option : ValueOption) : List Text :=
  o.values.filterMap fun (given, value) => if given = option then some value else .none

/-- The value of an option that was given, or a default. -/
def valueOr (o : Options) (option : ValueOption) (otherwise : Text) : Text :=
  (o.valuesOf option).headD otherwise

/-- Whether a flag was given. -/
def has (o : Options) (flag : Flag) : Bool := o.flags.contains flag

/-- The options with a value added, unless the option has one and may not have more. -/
def addValue? (o : Options) (option : ValueOption) (value : Text) : Option Options :=
  if option.isPath && value.isEmpty then .none
  else if !option.isRepeatable && !(o.valuesOf option).isEmpty then .none
  else some { o with values := o.values ++ [(option, value)] }

/-- The options with a flag added, unless it was given. -/
def addFlag? (o : Options) (flag : Flag) : Option Options :=
  if o.has flag then .none else some { o with flags := o.flags ++ [flag] }

/-- The options with an argument that is no option added. -/
def addReference (o : Options) (reference : Text) : Options :=
  { o with references := o.references ++ [reference] }

/-- Reads the letters after a dash. Gives the option that still needs its value, if the last one
does. -/
def addLetters? (o : Options) : Text → Option (Options × Option ValueOption)
  | [] => some (o, .none)
  | letter :: rest =>
    match CommandOption.letters.lookup letter with
    | .none => .none
    | some (.flag flag) => do addLetters? (← o.addFlag? flag) rest
    | some (.valued option) =>
      match rest with
      | [] => some (o, some option)
      | '=' :: value => (o.addValue? option value).map fun o => (o, .none)
      | value => (o.addValue? option value).map fun o => (o, .none)

/-- Reads what follows two dashes. Gives the option that still needs its value, if it does. -/
def addLong? (o : Options) (t : Text) : Option (Options × Option ValueOption) :=
  match Text.cutAt? (· = '=') t with
  | some (name, _, value) =>
    match CommandOption.longNames.lookup name with
    | some (.valued option) => (o.addValue? option value).map fun o => (o, .none)
    | _ => .none
  | .none =>
    match CommandOption.longNames.lookup t with
    | some (.valued option) => some (o, some option)
    | some (.flag flag) => (o.addFlag? flag).map fun o => (o, .none)
    | .none => .none

/-- Whether an argument cannot be the value of the option before it. -/
def looksLikeOption (argument : Text) : Bool :=
  argument.head? = some '-' && argument ≠ ['-']

/-- Reads arguments one after the other, or refuses them. `pending` is the option that needs the
next argument as its value. -/
def read? (o : Options) : (pending : Option ValueOption) → List Text → Option Options
  | .none, [] => some o
  | some _, [] => .none
  | some option, argument :: arguments =>
    if looksLikeOption argument then .none
    else do read? (← o.addValue? option argument) .none arguments
  | .none, argument :: arguments =>
    if argument = ['-', '-'] then some { o with references := o.references ++ arguments }
    else if !looksLikeOption argument then read? (o.addReference argument) .none arguments
    else do
      let (o, pending) ← match Text.stripStart? ['-', '-'] argument with
        | some long => o.addLong? long
        | .none => o.addLetters? (argument.drop 1)
      read? o pending arguments

/-- The settings that the options ask for, with further configuration files. -/
def settings (o : Options) (configurationFiles : List Path) : Settings where
  sources := match o.valuesOf .source with
    | [] => [.ofString "."]
    | sources => sources.map Path.mk
  destination := ⟨o.valueOr .destination "preprocessed".toList⟩
  extensions := Settings.readExtensions (o.valueOr .extensions "java,txt,htm,html".toList)
  excludedExtensions := Settings.readExtensions (o.valueOr .excludeExtensions "xml".toList)
  marker := o.valueOr .marker "//#".toList
  keepLastEnd := o.has .keepLastEol
  clear := o.has .clear
  dryRun := o.has .noOutput
  configurationFiles := (o.valuesOf .config).map Path.mk ++ configurationFiles

/-- The configuration files that arguments refer to, or the first argument that does not refer to
one. -/
def referredFiles : List Text → Except Text (List Path)
  | [] => .ok []
  | ('@' :: file) :: references => (referredFiles references).map (⟨file⟩ :: ·)
  | reference :: _ => .error reference

end Options

/-- What a program leaves behind besides files. -/
structure CommandResult where
  status : Nat
  output : String
  errors : String
  deriving DecidableEq, Repr

/-- Lines with a line feed after each. -/
def unlines (lines : List String) : String := String.join (lines.map (· ++ "\n"))

/-- Defines variables one after the other. -/
def defineAll : List Text → Run Unit
  | [] => return
  | definition :: definitions => do
    define definition
    defineAll definitions

/-- Runs with the given options and further configuration files. -/
def runOptions (o : Options) (configurationFiles : List Path) (files : FileTree) :
    CommandResult × FileTree :=
  let p : Preprocessor := ⟨o.settings configurationFiles, none⟩
  let step : Run Summary := do
    defineAll (o.valuesOf .define)
    p.run
  let (result, w) := step.run.run ⟨.empty, files, [], []⟩
  let log := logLines (if o.has .verbose then .information else .warning) w.log
  match result with
  | .ok _ => (⟨0, "", unlines log⟩, w.files)
  | .error d => (⟨1, "", unlines (log ++ [d.message])⟩, w.files)

/-- Runs the program with the given arguments. -/
def runCommandLine (arguments : List Text) (files : FileTree) : CommandResult × FileTree :=
  match Options.none.read? none arguments with
  | none => (⟨2, "", unlines ["The arguments are not understood."]⟩, files)
  | some o =>
    if o.has .listDirectives then (⟨0, unlines (Directive.all.map Directive.reference), ""⟩, files)
    else match Options.referredFiles o.references with
      | .error reference =>
        (⟨1, "", unlines ["Unexpected argument '" ++ reference.string ++
          "'. Configuration files are given as @file."]⟩, files)
      | .ok configurationFiles => runOptions o configurationFiles files

end SourcePreprocessor
