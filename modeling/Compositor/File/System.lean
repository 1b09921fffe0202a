/-
# Files

A file system is a tree of directories and files without links. A path is
resolved name by name: every name but the last one must be a directory, and
`..` goes to the directory above. Paths and names have a greatest length in
bytes, and no path holds a null character.

Key definitions: `Content`, `OsFault`, `FileSystem`, `FileSystem.locate`,
`FileSystem.read`, `FileSystem.write`, `FileSystem.createDirectories`.
Key theorems: `FileSystem.lookup?_put`, `FileSystem.lookup?_put_of_ne`.
-/
import Compositor.Document.Word
import Compositor.File.Path

namespace Compositor

/-- What a file holds. -/
inductive Content where
  /-- Text. -/
  | text (s : String)
  /-- A word processor document with the given body. -/
  | word (body : List Word.BodyItem)
  /-- Any other archive, by the names of its entries. -/
  | archive (names : List String)
  /-- Bytes that are no text. -/
  | binary (bytes : List UInt8)
  deriving Repr, DecidableEq, Inhabited

inductive Entry where
  | directory
  | file (content : Content)
  deriving Repr, DecidableEq, Inhabited

/-- A place in the tree: the names that lead to it from the root. -/
abbrev Location := List String

/-- Why the file system refuses an operation. -/
inductive OsFault where
  | notFound
  | fileExists
  | notADirectory
  | isADirectory
  | nameTooLong
  | nullInName
  deriving Repr, DecidableEq

def OsFault.message : OsFault → String
  | notFound => "No such file or directory (os error 2)"
  | fileExists => "File exists (os error 17)"
  | notADirectory => "Not a directory (os error 20)"
  | isADirectory => "Is a directory (os error 21)"
  | nameTooLong => "File name too long (os error 36)"
  | nullInName => "file name contained an unexpected NUL byte"

/-- The most bytes in a name. -/
def nameLimit : Nat := 255

/-- Paths have fewer bytes than this. -/
def pathLimit : Nat := 4096

/-- Why a path leads nowhere, whatever files there are: it is empty or too
long, or holds a null character. -/
def pathFault? (path : String) : Option OsFault :=
  if path.toList.contains '\x00' then some .nullInName
  else if pathLimit ≤ Text.size path.toList then some .nameTooLong
  else if path = "" then some .notFound
  else none

/-- A tree of files and directories. Of two entries for one location the one
nearer the head counts; the root is always a directory. Paths that do not
start at the root start at the directory `cwd`. -/
structure FileSystem where
  entries : List (Location × Entry) := []
  cwd : Location := []
  deriving Repr, Inhabited

namespace FileSystem

/-- What is at a location. -/
def lookup? (fs : FileSystem) (location : Location) : Option Entry :=
  if location = [] then some .directory else fs.entries.lookup location

/-- The file system with an entry put at a location. -/
def put (fs : FileSystem) (location : Location) (entry : Entry) : FileSystem :=
  { fs with entries := (location, entry) :: fs.entries }

/-- The location one step further: where `name` leads from `location`, which
has to be a directory. -/
def step (fs : FileSystem) (location : Location) (name : String) : Except OsFault Location :=
  match fs.lookup? location with
  | none => .error .notFound
  | some (.file _) => .error .notADirectory
  | some .directory =>
    if name = "" ∨ name = "." then .ok location
    else if name = ".." then .ok location.dropLast
    else if nameLimit < Text.size name.toList then .error .nameTooLong
    else .ok (location ++ [name])

/-- Where a list of names leads from a location. -/
def walk (fs : FileSystem) : Location → List String → Except OsFault Location
  | location, [] => .ok location
  | location, name :: names =>
    match fs.step location name with
    | .ok next => fs.walk next names
    | .error e => .error e

/-- Where a path starts. -/
def origin (fs : FileSystem) (path : String) : Location :=
  if Path.isAbsolute path then [] else fs.cwd

/-- Where a path leads. There need not be anything there, but the directory
above has to be. -/
def locate (fs : FileSystem) (path : String) : Except OsFault Location :=
  match pathFault? path with
  | some e => .error e
  | none => fs.walk (fs.origin path) (Path.pieces path)

/-- The path from the root on: without empty names and `.`, but with its `..`
and a slash at its end. -/
def absolute (fs : FileSystem) (path : String) : String :=
  Path.absolute ("/" ++ "/".intercalate fs.cwd) path

/-- What is where a path leads. -/
def find (fs : FileSystem) (path : String) : Except OsFault Entry :=
  match fs.locate path with
  | .error e => .error e
  | .ok location =>
    match fs.lookup? location with
    | none => .error .notFound
    | some entry => .ok entry

/-- Is there anything where the path leads? -/
def contains (fs : FileSystem) (path : String) : Bool := (fs.find path).isOk

/-- Does the path lead to a file? -/
def isFile (fs : FileSystem) (path : String) : Bool :=
  match fs.find path with
  | .ok (.file _) => true
  | _ => false

/-- The content of the file where a path leads. -/
def read (fs : FileSystem) (path : String) : Except OsFault Content :=
  match fs.find path with
  | .ok (.file content) => .ok content
  | .ok .directory => .error .isADirectory
  | .error e => .error e

/-- Why nothing can be written to a path that ends in a slash. The directory
above has to be there, and then the path names no file. -/
def slashFault (fs : FileSystem) (path : String) : OsFault :=
  match pathFault? path with
  | some e => e
  | none =>
    match fs.walk (fs.origin path) (Path.pieces (Path.withoutSlash path)).dropLast with
    | .error e => e
    | .ok above =>
      match fs.lookup? above with
      | none => .notFound
      | some (.file _) => .notADirectory
      | some .directory => .isADirectory

/-- The file system with a content written where a path leads. A path that
ends in a slash names no file. -/
def write (fs : FileSystem) (path : String) (content : Content) : Except OsFault FileSystem :=
  if Path.endsInSlash path then .error (fs.slashFault path)
  else
    match fs.locate path with
    | .error e => .error e
    | .ok location =>
      match fs.lookup? location with
      | some .directory => .error .isADirectory
      | _ => .ok (fs.put location (.file content))

/-- The file system with a directory at a location and at every location
above it. -/
def makeDirectories (fs : FileSystem) (location : Location) : FileSystem :=
  (List.range (location.length + 1)).foldl
    (fun fs depth =>
      let above := location.take depth
      if (fs.lookup? above).isSome then fs else fs.put above .directory)
    fs

/-- Is there a file at a location? -/
def holdsFile (fs : FileSystem) (location : Location) : Bool :=
  match fs.lookup? location with
  | some (.file _) => true
  | _ => false

/-- The file system with a directory at a location, those above it made where
they are missing. No file may be in the way. -/
def createDirectories (fs : FileSystem) (location : Location) : Except OsFault FileSystem :=
  if fs.holdsFile location then .error .fileExists
  else if (List.range location.length).any fun depth => fs.holdsFile (location.take depth) then
    .error .notADirectory
  else .ok (fs.makeDirectories location)

theorem lookup?_put {fs : FileSystem} {location : Location} {entry : Entry} (h : location ≠ []) :
    (fs.put location entry).lookup? location = some entry := by
  simp [lookup?, put, h]

theorem lookup?_put_of_ne {fs : FileSystem} {location other : Location} {entry : Entry}
    (h : other ≠ location) : (fs.put location entry).lookup? other = fs.lookup? other := by
  have hb : (other == location) = false := by simpa using h
  simp [lookup?, put, List.lookup_cons, hb]

end FileSystem
end Compositor
