/-
# The command

Files are read as the work asks for them, the work itself is done on the
model of the file system, and what it has written there is written out.
-/
import Compositor.Program

namespace Compositor.Shell

/-- What is on the disk at a location. A file that is no text is binary. -/
def probe (location : Location) : IO (Option Entry) := do
  try
    let bytes ← IO.FS.readBinFile ("/" ++ "/".intercalate location)
    match String.fromUTF8? bytes with
    | some s => return some (.file (.text s))
    | none => return some (.file (.binary bytes.toList))
  catch
    | .noFileOrDirectory .. => return none
    | .inappropriateType .. => return some .directory
    | .permissionDenied .. => return some (.file (.binary []))
    | _ => return none

/-- The file system with what is on the disk at the locations that lead to a
path. -/
def fetch (files : FileSystem) (path : String) : IO FileSystem := do
  let names := Path.segments (files.absolute path)
  let mut files := files
  let mut location : Location := []
  for name in names do
    location := if name = ".." then location.dropLast else location ++ [name]
    if (files.lookup? location).isNone then
      match ← probe location with
      | some entry => files := files.put location entry
      | none => return files
  return files

/-- The machine with all files that the work asks for. Each of them can ask
for more. -/
partial def gather (m : Machine) (arguments asked : List String) : IO Machine := do
  match (pathsAskedFor m arguments).filter fun path => path ∉ asked with
  | [] => return m
  | paths =>
    let files ← paths.foldlM fetch m.files
    gather { m with files } arguments (paths ++ asked)

/-- Writes an entry to the disk. -/
def writeOut (location : Location) : Entry → IO Unit
  | .directory => IO.FS.createDirAll ("/" ++ "/".intercalate location)
  | .file (.text s) => IO.FS.writeFile ("/" ++ "/".intercalate location) s
  | .file _ => return

/-- The first number in a text. -/
def firstNumber (s : String) : Nat :=
  let digits := (s.toList.dropWhile fun c => !c.isDigit).takeWhile Char.isDigit
  Nat.ofDigitChars 10 digits 0

/-- The seconds since the start of 1970: those at which the machine started,
and those since then. -/
def secondsNow : IO Nat := do
  let facts := Text.lines (← IO.FS.readFile "/proc/stat").toList
  let started := (facts.filterMap (Text.after? "btime".toList)).head?.getD []
  return firstNumber (String.ofList started) + firstNumber (← IO.FS.readFile "/proc/uptime")

/-- The directory for settings. -/
def settingsDirectory : IO String := do
  match ← IO.getEnv "XDG_CONFIG_HOME" with
  | some directory => if Path.isAbsolute directory then return directory else fallback
  | none => fallback
where
  fallback : IO String := do return Path.join ((← IO.getEnv "HOME").getD "/") ".config"

/-- The machine that the command runs on, with no file read yet. -/
def machine : IO Machine := do
  let cwd := Path.segments (toString (← IO.currentDir))
  let files := ({ cwd := cwd } : FileSystem).makeDirectories cwd
  let clock := Moment.ofEpochSeconds (← secondsNow)
  return { files, settingsDirectory := ← settingsDirectory, clock }

end Compositor.Shell

open Compositor in
def main (arguments : List String) : IO UInt32 := do
  let m ← Shell.gather (← Shell.machine) arguments []
  let report := runCommand m arguments
  let written := report.files.entries.length - m.files.entries.length
  for (location, entry) in (report.files.entries.take written).reverse do
    Shell.writeOut location entry
  IO.print report.output
  IO.eprint report.errors
  return report.code.toUInt32
