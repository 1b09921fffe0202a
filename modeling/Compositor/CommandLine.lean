/-
# The command line

Options have a long name, and most have a short one. The value of an option
is the argument after it, or follows its name: after an equals sign, or right
after a short name. Short names can be put together. Only definitions may be
given more than once, and a value that is an argument of its own does not
start with a hyphen.

Key definitions: `Arguments`, `Command`, `parseArguments?`.
-/
import Compositor.Text.Start
import Compositor.Locale

namespace Compositor

/-- The options given. -/
structure Arguments where
  template : Option String := none
  main : Option String := none
  output : Option String := none
  macros : Option String := none
  definitions : List String := []
  locale : Option Locale := none
  force : Bool := false
  verbose : Bool := false
  initConfig : Bool := false
  deriving Repr, DecidableEq, Inhabited

/-- What a command line asks for. -/
inductive Command where
  /-- To compose a document of a template and a main text. -/
  | compose (template main output : String) (arguments : Arguments)
  /-- To write the default settings. -/
  | initConfig
  | help
  | version
  deriving Repr, DecidableEq

namespace CommandLine
open Text

/-- An option that takes a value. -/
inductive ValueName where
  | template
  | main
  | output
  | macros
  | definition
  | locale
  deriving Repr, DecidableEq

/-- An option that takes none. -/
inductive FlagName where
  | force
  | verbose
  | initConfig
  | help
  | version
  deriving Repr, DecidableEq

/-- An option by its kind. -/
inductive OptionName where
  | value (name : ValueName)
  | flag (name : FlagName)
  deriving Repr, DecidableEq

def longNames : List (String × OptionName) :=
  [("template", .value .template), ("main", .value .main), ("output", .value .output),
    ("macros", .value .macros), ("locale", .value .locale), ("force", .flag .force),
    ("verbose", .flag .verbose), ("init-config", .flag .initConfig), ("help", .flag .help),
    ("version", .flag .version)]

def shortNames : List (Char × OptionName) :=
  [('t', .value .template), ('m', .value .main), ('o', .value .output), ('M', .value .macros),
    ('D', .value .definition), ('f', .flag .force), ('v', .flag .verbose), ('h', .flag .help),
    ('V', .flag .version)]

/-- A path that is given for the first time and is not empty. -/
def path? (old : Option String) (value : String) : Option String :=
  if old.isSome || value.isEmpty then none else some value

/-- The options with one more value, if it may be given. -/
def setValue? (a : Arguments) (value : String) : ValueName → Option Arguments
  | .template => (path? a.template value).map fun path => { a with template := some path }
  | .main => (path? a.main value).map fun path => { a with main := some path }
  | .output => (path? a.output value).map fun path => { a with output := some path }
  | .macros => (path? a.macros value).map fun path => { a with macros := some path }
  | .definition => some { a with definitions := a.definitions ++ [value] }
  | .locale =>
    if a.locale.isSome then none
    else (Locale.ofCode? value).map fun locale => { a with locale := some locale }

/-- Where reading stands after an argument or a part of it. -/
inductive Progress where
  | continue (a : Arguments)
  /-- The next argument is the value of an option. -/
  | awaiting (name : ValueName) (a : Arguments)
  /-- The rest of the command line does not matter. -/
  | finished (c : Command)
  | refused

/-- Options that may be refused. -/
def Progress.ofOption : Option Arguments → Progress
  | some a => .continue a
  | none => .refused

/-- The options with one more flag. -/
def setFlag (a : Arguments) : FlagName → Progress
  | .force => if a.force then .refused else .continue { a with force := true }
  | .verbose => if a.verbose then .refused else .continue { a with verbose := true }
  | .initConfig => if a.initConfig then .refused else .continue { a with initConfig := true }
  | .help => .finished .help
  | .version => .finished .version

/-- Reads an option with a long name, after its hyphens. -/
def long (a : Arguments) (s : List Char) : Progress :=
  let name := s.takeWhile (· ≠ '=')
  let value? := (after? (name ++ ['=']) s).map String.ofList
  match longNames.lookup (String.ofList name), value? with
  | some (.value name), some value => .ofOption (setValue? a value name)
  | some (.value name), none => .awaiting name a
  | some (.flag name), none => setFlag a name
  | _, _ => .refused

/-- Reads options with short names, after their hyphen. -/
def short (a : Arguments) : List Char → Progress
  | [] => .continue a
  | c :: s =>
    match shortNames.lookup c with
    | some (.value name) =>
      match s with
      | [] => .awaiting name a
      | '=' :: value | value => .ofOption (setValue? a (String.ofList value) name)
    | some (.flag name) =>
      match setFlag a name with
      | .continue a => short a s
      | progress => progress
    | none => .refused

/-- Reads an argument that is not the value of the one before. -/
def argument (a : Arguments) (s : String) : Progress :=
  match s.toList with
  | '-' :: '-' :: s => long a s
  | '-' :: c :: s => short a (c :: s)
  | _ => .refused

/-- Can the argument be the value of the option before it? -/
def isValue (s : String) : Bool := s = "-" || s.toList.head? ≠ some '-'

/-- What the options ask for, if all that is needed is there. -/
def command? (a : Arguments) : Option Command :=
  if a.initConfig then some .initConfig
  else
    match a.template, a.main, a.output with
    | some template, some main, some output => some (.compose template main output a)
    | _, _, _ => none

/-- Reads the remaining arguments. Two hyphens end the options, and no other
argument may follow. -/
def commandOf? (a : Arguments) : List String → Option Command
  | [] => command? a
  | ["--"] => command? a
  | s :: rest =>
    match argument a s with
    | .continue a => commandOf? a rest
    | .finished c => some c
    | .refused => none
    | .awaiting name a =>
      match rest with
      | [] => none
      | value :: rest =>
        if isValue value then
          match setValue? a value name with
          | some a => commandOf? a rest
          | none => none
        else none

end CommandLine

/-- What the arguments of a command line ask for, if they are in order. -/
def parseArguments? (arguments : List String) : Option Command :=
  CommandLine.commandOf? {} arguments

end Compositor
