/-
# Tables of settings

A file of settings is a table: keys with values that are texts, numbers,
truth values, dates, arrays or tables again. A table comes about by a header
of its own, by a longer header or key that leads through it, or in braces,
and that decides what may still be added to it: a key may be defined only
once, and a table in braces is closed.

Key definitions: `Toml`, `Toml.Members`, `addKey?`, `openTable?`,
`openArray?`.
-/
namespace Compositor

/-- How a table came about. -/
inductive Toml.Form where
  /-- By a header of its own, or as the file itself. -/
  | header
  /-- By a header that leads through it. -/
  | passed
  /-- By a key with dots in it. -/
  | dotted
  /-- In braces. -/
  | closed
  deriving Repr, DecidableEq

/-- A value in a file of settings. Of numbers that are no integers and of
dates only the kind is kept. -/
inductive Toml where
  | string (s : String)
  | integer (n : Int)
  | boolean (b : Bool)
  | float
  | dateTime
  | array (items : List Toml)
  | table (form : Toml.Form) (members : List (String × Toml))
  /-- Tables under one header, the last one first. -/
  | tables (items : List (List (String × Toml)))
  deriving Inhabited

namespace Toml

/-- Keys with their values, in the order in which they were defined. -/
abbrev Members := List (String × Toml)

/-- The members with another value for a key that is there. -/
def replace (members : Members) (key : String) (value : Toml) : Members :=
  members.map fun m => if m.1 = key then (key, value) else m

/-- The members with a key more, if it is not there yet. -/
def define? (members : Members) (key : String) (value : Toml) : Option Members :=
  if (members.lookup key).isSome then none else some (members ++ [(key, value)])

/-- Changes the table that a path of keys leads to. It may lead through the
last table of an array and through other tables that are open; a key with
dots may not lead through a table that has a header of its own. Where nothing
is yet, a table of the form `made` comes about. -/
def descend? (made : Form) (change : Form → Members → Option Members) :
    List String → Form → Members → Option Members
  | [], form, members => change form members
  | key :: path, _, members =>
    match members.lookup key with
    | none =>
      (descend? made change path made []).map fun inner => members ++ [(key, table made inner)]
    | some (table form inner) =>
      if form = .closed ∨ (made = .dotted ∧ form = .header) then none
      else
        (descend? made change path form inner).map fun inner =>
          replace members key (table form inner)
    | some (tables (last :: others)) =>
      (descend? made change path .header last).map fun last =>
        replace members key (tables (last :: others))
    | some _ => none

/-- Defines a key under the table at hand, where `path` holds what stands
before its last dot. Only keys with dots add to a table that such keys made. -/
def addDotted? (path : List String) (key : String) (value : Toml) (members : Members) :
    Option Members :=
  descend? .dotted
    (fun form inner =>
      if path.isEmpty || form = .dotted then define? inner key value else none)
    path .header members

/-- Defines a key under a header. -/
def addKey? (header path : List String) (key : String) (value : Toml) (root : Members) :
    Option Members :=
  descend? .passed (fun _ inner => addDotted? path key value inner) header .header root

/-- Opens the table of a header, which must be new or only passed through so
far. -/
def openTable? (path : List String) (key : String) (root : Members) : Option Members :=
  descend? .passed
    (fun _ inner =>
      match inner.lookup key with
      | none => some (inner ++ [(key, table .header [])])
      | some (table .passed members) => some (replace inner key (table .header members))
      | some _ => none)
    path .header root

/-- Opens one more table in the array of a header. -/
def openArray? (path : List String) (key : String) (root : Members) : Option Members :=
  descend? .passed
    (fun _ inner =>
      match inner.lookup key with
      | none => some (inner ++ [(key, tables [[]])])
      | some (tables items) => some (replace inner key (tables ([] :: items)))
      | some _ => none)
    path .header root

end Toml
end Compositor
