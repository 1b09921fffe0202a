/-
# Lines

A line ends at a line feed, which with a carriage return right before it is
one line end. What follows the last line feed is a line of its own unless it
is empty, and keeps a carriage return at its end.

Key definitions: `pieces`, `lines`.
-/
namespace Compositor.Text

/-- The text cut at every `sep`: what stands before the first one, and the
pieces after it. -/
def pieces (sep : Char) : List Char → List Char × List (List Char)
  | [] => ([], [])
  | c :: s =>
    let (first, others) := pieces sep s
    if c = sep then ([], first :: others) else (c :: first, others)

/-- A line without the carriage return that belongs to its line end. -/
def dropReturn (line : List Char) : List Char :=
  if line.getLast? = some '\r' then line.dropLast else line

/-- The lines among pieces cut at line feeds: each piece but the last was
ended by one. -/
def endedLines : List Char → List (List Char) → List (List Char)
  | last, [] => if last.isEmpty then [] else [last]
  | line, next :: others => dropReturn line :: endedLines next others

/-- The lines of a text. -/
def lines (s : List Char) : List (List Char) :=
  let (first, others) := pieces '\n' s
  endedLines first others

end Compositor.Text
