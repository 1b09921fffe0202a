/-
# The file of settings

The settings of a user are in one file under the directory for settings.
Where there is no file, the defaults hold.

Key definitions: `Settings.path`, `FileSystem.loadSettings?`,
`FileSystem.saveSettings`.
-/
import Compositor.File.Document
import Compositor.Settings.Toml

namespace Compositor

/-- The name of the program. -/
def programName : String := "templater"

/-- The path of the file of settings, where `directory` is the directory for
settings. -/
def Settings.path (directory : String) : String :=
  Path.join (Path.join directory programName) "config.toml"

namespace FileSystem

/-- The settings in a file, or the defaults if there is none. -/
def loadSettings? (fs : FileSystem) (path : String) : Option Settings :=
  if fs.contains path then (fs.readText path).toOption.bind Settings.parse? else some {}

/-- The file system with settings saved at an absolute path, the directories
above it made where they are missing. -/
def saveSettings (fs : FileSystem) (path : String) (s : Settings) : Except OsFault FileSystem :=
  match fs.createDirectories (Path.segments path).dropLast with
  | .error e => .error e
  | .ok fs => fs.write path (.text s.print)

end FileSystem
end Compositor
