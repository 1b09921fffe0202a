/-
# Reading files of settings

A file of settings is read line by line: a header opens a table, and a key
with a value adds to the table that is open. Arrays and tables in braces may
go over several lines, hold comments and end in a comma. They nest up to a
depth, and a key has up to so many parts.

Key definitions: `Toml.depthLimit`, `Toml.key?`, `Toml.value?`,
`Toml.expression?`, `Toml.parse?`.
-/
import Compositor.Toml.Plain
import Compositor.Toml.Text

namespace Compositor.Toml
open Text

/-- The most arrays and tables in braces within one another, and the most
parts of a key. -/
def depthLimit : Nat := 80

/-! ### Keys -/

/-- A character of a key without quotes. -/
def isKeyChar (c : Char) : Bool := c.isAlphanum || c = '_' || c = '-'

/-- A key without dots, and what follows it. -/
def simpleKey? (s : List Char) : Option (String × List Char) :=
  let name := s.takeWhile isKeyChar
  if name.isEmpty then (quoted? true s).map fun (text, rest) => (String.ofList text, rest)
  else some (String.ofList name, s.drop name.length)

/-- The parts of a key with dots, the first one apart, and what follows the
key and the blanks after it. -/
def keyParts? : (fuel : Nat) → List Char → Option ((String × List String) × List Char)
  | 0, _ => none
  | fuel + 1, s => do
    let (first, rest) ← simpleKey? (skipSpace s)
    match skipSpace rest with
    | '.' :: rest =>
      let ((second, others), rest) ← keyParts? fuel rest
      return ((first, second :: others), rest)
    | rest => return ((first, []), rest)

/-- A key as its first part and the others, and what follows the key and the
blanks after it. -/
def key? (fuel : Nat) (s : List Char) : Option ((String × List String) × List Char) :=
  (keyParts? fuel s).filter fun (key, _) => key.2.length < depthLimit

/-- A key as the path before its last part, and its last part. -/
def splitKey (first : String) (others : List String) : List String × String :=
  ((first :: others).dropLast, others.getLast?.getD first)

/-! ### Values -/

/-- The text after a comment, if there is one. -/
def skipComment : List Char → Option (List Char)
  | '#' :: s =>
    let rest := s.dropWhile fun c => !isControl c
    if rest.isEmpty ∨ (newline? rest).isSome then some rest else none
  | s => some s

/-- The text after blanks, comments and line ends. -/
def skipLines : (fuel : Nat) → List Char → Option (List Char)
  | 0, s => some s
  | fuel + 1, s => do
    let rest ← skipComment (skipSpace s)
    match newline? rest with
    | some rest => skipLines fuel rest
    | none => return rest

mutual

/-- The value at the head of a text, and what follows it. Arrays and tables in
braces may nest `room` levels deep. -/
def value? : (fuel room : Nat) → List Char → Option (Toml × List Char)
  | 0, _, _ => none
  | fuel + 1, room, s =>
    match s, room with
    | '[' :: _, 0 | '\x7b' :: _, 0 => none
    | '[' :: s, room + 1 => (items? fuel room s).map fun (items, rest) => (array items, rest)
    | '\x7b' :: s, room + 1 =>
      (pairs? fuel room [] s).map fun (members, rest) => (table .closed members, rest)
    | s, _ =>
      if s.head? = some '"' ∨ s.head? = some '\'' then
        (quoted? false s).map fun (text, rest) => (string (String.ofList text), rest)
      else (plain? (splitPlain s).1).map fun v => (v, (splitPlain s).2)

/-- The rest of an array before an item or its end. -/
def items? : (fuel room : Nat) → List Char → Option (List Toml × List Char)
  | 0, _, _ => none
  | fuel + 1, room, s => do
    match ← skipLines fuel s with
    | ']' :: rest => return ([], rest)
    | s =>
      let (v, rest) ← value? fuel room s
      match ← skipLines fuel rest with
      | ']' :: rest => return ([v], rest)
      | ',' :: rest =>
        let (vs, rest) ← items? fuel room rest
        return (v :: vs, rest)
      | _ => none

/-- The rest of a table in braces before a key or its end, after the given
members. -/
def pairs? : (fuel room : Nat) → Members → List Char → Option (Members × List Char)
  | 0, _, _, _ => none
  | fuel + 1, room, members, s => do
    match ← skipLines fuel s with
    | '\x7d' :: rest => return (members, rest)
    | s =>
      let ((first, others), rest) ← key? fuel s
      match ← skipLines fuel rest with
      | '=' :: rest =>
        let (v, rest) ← value? fuel room (← skipLines fuel rest)
        let (path, key) := splitKey first others
        let members ← addDotted? path key v members
        match ← skipLines fuel rest with
        | '\x7d' :: rest => return (members, rest)
        | ',' :: rest => pairs? fuel room members rest
        | _ => none
      | _ => none

end

/-! ### Lines -/

/-- The tables read so far, and the header of the one that is open. -/
structure Reading where
  root : Members := []
  header : List String := []

/-- Reads one line without what may follow its end: the state after it, and
the text after it. -/
def expression? (fuel : Nat) (r : Reading) (s : List Char) : Option (Reading × List Char) :=
  match skipSpace s with
  | '[' :: '[' :: s => do
    match ← key? fuel s with
    | ((first, others), ']' :: ']' :: rest) =>
      let (path, key) := splitKey first others
      return (⟨← openArray? path key r.root, first :: others⟩, rest)
    | _ => none
  | '[' :: s => do
    match ← key? fuel s with
    | ((first, others), ']' :: rest) =>
      let (path, key) := splitKey first others
      return (⟨← openTable? path key r.root, first :: others⟩, rest)
    | _ => none
  | s =>
    if s.isEmpty ∨ s.head? = some '#' ∨ (newline? s).isSome then some (r, s)
    else do
      match ← key? fuel s with
      | ((first, others), '=' :: rest) =>
        let (v, rest) ← value? fuel depthLimit (skipSpace rest)
        let (path, key) := splitKey first others
        return ({ r with root := ← addKey? r.header path key v r.root }, rest)
      | _ => none

/-- Reads the lines of a text. -/
def lines? (depth : Nat) : (fuel : Nat) → Reading → List Char → Option Members
  | 0, _, _ => none
  | fuel + 1, r, s => do
    let (r, rest) ← expression? depth r s
    let rest ← skipComment (skipSpace rest)
    if rest.isEmpty then return r.root
    else lines? depth fuel r (← newline? rest)

/-- A text without a byte order mark. -/
def dropMark : List Char → List Char
  | '\uFEFF' :: s => s
  | s => s

/-- The settings in a text. Every step of reading takes a character, so that
its length bounds the steps. -/
def parse? (s : String) : Option Members :=
  let s := dropMark s.toList
  lines? (2 * s.length + 2) (s.length + 1) {} s

end Compositor.Toml
