/-
# Files of keys and values

A file of properties has one key and its value to a line, with `=`, `:` or
blanks between them. A line that starts with `#` or `!` is a comment, an odd
number of backslashes at its end joins the next line to it, and a backslash
takes the meaning from the character after it or gives it one.

Key definitions: `logicalLines`, `splitProperty`, `unescape`,
`parseProperties`.
-/
import Compositor.Text.Blank
import Compositor.Text.Hex
import Compositor.Text.Lines

namespace Compositor.Macro
open Text

/-- Does the next line belong to this one? An odd number of backslashes at
the end says so. -/
def continues (line : List Char) : Bool :=
  (line.reverse.takeWhile (· = '\\')).length % 2 = 1

/-- The line with the lines that continue it, and the lines after those. The
backslash of a join goes, and so do the blanks at the start of a line joined. -/
def joinContinued (line : List Char) : List (List Char) → List Char × List (List Char)
  | [] => (if continues line then line.dropLast else line, [])
  | next :: rest =>
    if continues line then joinContinued (line.dropLast ++ skipBlanks next) rest
    else (line, next :: rest)

theorem length_joinContinued_le (line : List Char) (rest : List (List Char)) :
    (joinContinued line rest).2.length ≤ rest.length := by
  induction rest generalizing line with
  | nil => simp [joinContinued]
  | cons next rest ih =>
    unfold joinContinued
    split
    · have := ih (line.dropLast ++ skipBlanks next)
      simp
      omega
    · simp

/-- Does a line, without the blanks at its start, hold no property? -/
def isRemark (line : List Char) : Bool :=
  line.isEmpty || line.head? = some '#' || line.head? = some '!'

/-- The lines that hold a property each, joined where they continue. -/
def logicalLines : List (List Char) → List (List Char)
  | [] => []
  | l :: rest =>
    let line := skipBlanks l
    if isRemark line then logicalLines rest
    else (joinContinued line rest).1 :: logicalLines (joinContinued line rest).2
termination_by lines => lines.length
decreasing_by
  · simp
  · have := length_joinContinued_le (skipBlanks l) rest
    simp
    omega

/-- The text after a separator that may stand behind the blanks of another. -/
def dropSeparator : List Char → List Char
  | '=' :: s => s
  | ':' :: s => s
  | s => s

/-- The key and the value of a line as they are written, cut at the first
separator that no backslash takes its meaning from. -/
def splitProperty : List Char → List Char × List Char
  | [] => ([], [])
  | '\\' :: c :: s =>
    let (key, value) := splitProperty s
    ('\\' :: c :: key, value)
  | c :: s =>
    if c = '=' ∨ c = ':' then ([], skipBlanks s)
    else if isBlank c then ([], skipBlanks (dropSeparator (skipBlanks s)))
    else
      let (key, value) := splitProperty s
      (c :: key, value)

/-- The character that the digits of a `\u` escape name; a sign may stand
before them. -/
def escapedChar? (digits : List Char) : Option Char :=
  let number :=
    match digits with
    | '+' :: digits => hexValue? digits
    | digits => hexValue? digits
  number.bind charOf?

/-- The text with its backslash escapes resolved. A `\u` escape that names
no character leaves its `u` and its digits. -/
def unescape : List Char → List Char
  | [] => []
  | ['\\'] => []
  | '\\' :: 't' :: s => '\t' :: unescape s
  | '\\' :: 'n' :: s => '\n' :: unescape s
  | '\\' :: 'r' :: s => '\r' :: unescape s
  | '\\' :: 'f' :: s => '\x0c' :: unescape s
  | '\\' :: 'u' :: s =>
    let digits := s.take 4
    let decoded :=
      match escapedChar? digits with
      | some c => [c]
      | none => 'u' :: digits
    decoded ++ unescape (s.drop 4)
  | '\\' :: c :: s => c :: unescape s
  | c :: s => c :: unescape s
termination_by s => s.length

/-- The property of a joined line. -/
def property (line : List Char) : String × String :=
  let (key, value) := splitProperty line
  (String.ofList (unescape key), String.ofList (unescape value))

/-- The properties of a file, in order. -/
def parseProperties (content : String) : List (String × String) :=
  (logicalLines (lines content.toList)).map property

end Compositor.Macro
