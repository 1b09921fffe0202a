/-
# The program

A command works on the files of a machine and leaves a report: what went
wrong, what it has to say, and the files as they are then.

Key definitions: `Machine`, `Report`, `runCommand`, `Report.code`,
`Report.errors`.
-/
import Compositor.CommandLine
import Compositor.Composer
import Compositor.Settings.File

namespace Compositor

/-- What a command works on. -/
structure Machine where
  files : FileSystem
  /-- The directory for settings. -/
  settingsDirectory : String
  clock : Moment
  deriving Repr, Inhabited

/-- Why a command stops. -/
inductive CommandFault where
  /-- The arguments are not in order. -/
  | usage
  /-- The settings cannot be read. -/
  | settings
  /-- The settings cannot be saved. -/
  | saving (fault : OsFault)
  | work (fault : Fault)
  deriving Repr, DecidableEq

/-- What a command leaves. -/
structure Report where
  files : FileSystem
  fault? : Option CommandFault := none
  output : String := ""
  warnings : List Diagnostic := []
  deriving Repr, Inhabited

namespace Report

/-- The exit code. -/
def code (r : Report) : Nat :=
  match r.fault? with
  | none => 0
  | some .usage => 2
  | some _ => 1

/-- A message, and its cause on a line of its own. -/
def errorText (message : String) (cause? : Option String) : String :=
  let cause :=
    match cause? with
    | none => ""
    | some cause => "\nCaused by:\n    " ++ cause ++ "\n"
  "Error: " ++ message ++ "\n" ++ cause

/-- The number of warnings and then each of them on a line. -/
def warningText (warnings : List Diagnostic) : String :=
  if warnings.isEmpty then ""
  else
    "Finished with " ++ toString warnings.length ++ " warning(s):\n"
      ++ String.join (warnings.map fun d => "  " ++ d.message ++ "\n")

/-- What the command has to say on the error output. -/
def errors (r : Report) : String :=
  match r.fault? with
  | none => warningText r.warnings
  | some .usage => "Usage: " ++ programName ++ " --template <FILE> --main <FILE> --output <FILE>\n"
  | some .settings => errorText "cannot read configuration" none
  | some (.saving fault) => errorText fault.message none
  | some (.work fault) => errorText fault.message fault.cause?

end Report

/-- The line that tells the version. -/
def versionText : String := programName ++ " 0.1.0\n"

/-- What the program is for, and its options. -/
def helpText : String :=
  "Template composer for generated documents: macro expansion, recursive includes and formula "
    ++ "repair\n\nUsage: " ++ programName ++ " [OPTIONS]\n\nOptions:\n"
    ++ "  -t, --template <TEMPLATE>  Template document containing %MAIN_TEXT%, %INCLUDE(...)% and "
    ++ "other macros\n"
    ++ "  -m, --main <MAIN>          Main text inserted at %MAIN_TEXT%\n"
    ++ "  -o, --output <OUTPUT>      Output file (.json, .md or plain text)\n"
    ++ "  -M, --macros <MACROS>      File with KEY=VALUE macro definitions\n"
    ++ "  -D <KEY=VALUE>             Define a macro, overriding the macro file\n"
    ++ "  -f, --force                Overwrite the output file if it exists\n"
    ++ "  -v, --verbose              Report progress and debug details\n"
    ++ "      --locale <LOCALE>      Locale for date/time macros and the table of contents title "
    ++ "[possible values: en, ru, de]\n"
    ++ "      --init-config          Write the default configuration file and exit\n"
    ++ "  -h, --help                 Print help\n"
    ++ "  -V, --version              Print version\n"

/-- The key and the value of a definition `KEY=VALUE`, without the blanks
around them. The key must not be blank. -/
def parseDefinition (text : String) : Except Fault (String × String) :=
  let key := text.toList.takeWhile (· ≠ '=')
  match text.toList.drop key.length with
  | _ :: value =>
    if Text.allBlank key then .error (.definition text)
    else .ok (String.ofList (Text.trim key), String.ofList (Text.trim value))
  | [] => .error (.definition text)

/-- The directory that include paths start from. -/
def includeBase : String := "."

/-- Composes a document as the arguments say. Definitions count before those
in a file. -/
def runCompose (m : Machine) (settings : Settings) (template main output : String)
    (a : Arguments) : Except Fault (Outcome × FileSystem) := do
  let composer := Composer.ofSettings settings m.clock
  let fromFile ←
    match a.macros with
    | none => pure []
    | some path => loadProperties m.files path
  let defined ← a.definitions.mapM parseDefinition
  ((composer.define fromFile).define defined).run ⟨m.files, includeBase⟩ template main output
    a.force

/-- The settings with what the arguments say in their place. -/
def Settings.override (s : Settings) (a : Arguments) : Settings :=
  { s with locale := a.locale.getD s.locale, verbose := s.verbose || a.verbose }

/-- The paths that a command asks for on a machine, as far as can be told from
the files that are there. -/
def pathsAskedFor (m : Machine) (arguments : List String) : List String :=
  let settingsPath := Settings.path m.settingsDirectory
  match parseArguments? arguments with
  | some (.compose template main output a) =>
    let settings := ((m.files.loadSettings? settingsPath).getD {}).override a
    let composer := Composer.ofSettings settings m.clock
    [settingsPath, template, main, output] ++ a.macros.toList
      ++ composer.missingPaths ⟨m.files, includeBase⟩ template main
  | _ => [settingsPath]

/-- Does what the arguments ask for. -/
def runCommand (m : Machine) (arguments : List String) : Report :=
  let settingsPath := Settings.path m.settingsDirectory
  match parseArguments? arguments with
  | none => { files := m.files, fault? := some .usage }
  | some .help => { files := m.files, output := helpText }
  | some .version => { files := m.files, output := versionText }
  | some .initConfig =>
    match m.files.saveSettings settingsPath {} with
    | .error fault => { files := m.files, fault? := some (.saving fault) }
    | .ok files =>
      { files, output := "Wrote default configuration to " ++ settingsPath ++ "\n" }
  | some (.compose template main output a) =>
    match m.files.loadSettings? settingsPath with
    | none => { files := m.files, fault? := some .settings }
    | some settings =>
      match runCompose m (settings.override a) template main output a with
      | .error fault => { files := m.files, fault? := some (.work fault) }
      | .ok (outcome, files) => { files, warnings := outcome.diagnostics }

end Compositor
