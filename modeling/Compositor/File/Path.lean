/-
# Paths

A path is a text of names with slashes between them. Empty names and the
name `.` stay where they are, and `..` goes up; neither is resolved here,
since that takes a file system.

Key definitions: `isAbsolute`, `segments`, `join`, `absolute`, `stem?`,
`extension`.
-/
import Compositor.Text.Lines

namespace Compositor.Path

/-- Does the path start at the root? -/
def isAbsolute (path : String) : Bool := path.toList.head? = some '/'

/-- Does the path end in a slash? -/
def endsInSlash (path : String) : Bool := path.toList.getLast? = some '/'

/-- What stands between the slashes of a path, empty texts included. -/
def pieces (path : String) : List String :=
  let (first, others) := Text.pieces '/' path.toList
  (first :: others).map String.ofList

/-- The names of a path that lead somewhere: neither empty nor `.`. -/
def segments (path : String) : List String :=
  (pieces path).filter fun name => name ≠ "" && name ≠ "."

/-- The path with a slash at its end. -/
def withSlash (path : String) : String := if endsInSlash path then path else path ++ "/"

/-- The path without the slashes at its end. -/
def withoutSlash (path : String) : String :=
  String.ofList (path.toList.reverse.dropWhile (· = '/')).reverse

/-- The path as seen from the directory `base`. -/
def join (base path : String) : String :=
  if isAbsolute path then path
  else if base = "" then path
  else withSlash base ++ path

/-- The names after a base, which ends where they start. -/
def extend (base : String) (names : List String) : String := names.foldl join base

/-- Does the path start with exactly two slashes? Such a root is kept. -/
def hasDoubleRoot (path : String) : Bool :=
  match path.toList with
  | '/' :: '/' :: '/' :: _ => false
  | '/' :: '/' :: _ => true
  | _ => false

/-- The path from the root on, where `cwd` is the directory at hand: without
empty names and `.`, but with its `..` and a slash at its end. -/
def absolute (cwd path : String) : String :=
  let root := if isAbsolute path then if hasDoubleRoot path then "//" else "/" else cwd
  let extended := extend root (segments path)
  if endsInSlash path then withSlash extended else extended

/-- The last name of a path, unless it is `..`. -/
def fileName? (path : String) : Option String :=
  match (segments path).getLast? with
  | some ".." => none
  | name => name

/-- A file name before and after its last dot. A dot at the start separates
nothing. -/
def splitName (name : String) : String × Option String :=
  let reversed := name.toList.reverse
  let after := (reversed.takeWhile (· ≠ '.')).reverse
  match reversed.dropWhile (· ≠ '.') with
  | '.' :: before =>
    if before.isEmpty then (name, none)
    else (String.ofList before.reverse, some (String.ofList after))
  | _ => (name, none)

/-- The last name of a path without its extension. -/
def stem? (path : String) : Option String := (fileName? path).map fun name => (splitName name).1

/-- The extension of a path, its ASCII letters in lower case; empty if there
is none. -/
def extension (path : String) : String :=
  let extension? := (fileName? path).bind fun name => (splitName name).2
  String.ofList ((extension?.getD "").toList.map Char.toLower)

end Compositor.Path
