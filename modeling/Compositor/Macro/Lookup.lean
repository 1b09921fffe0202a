/-
# Looking up macros

A key is answered by the first of three layers that knows it: the date and
time of the clock, the counters of the document, and the values that the
user gave. The user's values never answer a reserved name.

Key definitions: `LookupTable`, `LookupTable.lookup?`.
-/
import Compositor.Text.Start
import Compositor.Calendar.DatePattern
import Compositor.Document.Query
import Compositor.Locale
import Compositor.Macro.Token

namespace Compositor.Macro

/-- What macros stand for. Of two values under one key the one nearer the
head of `statics` counts. The moment is an input of a run: a clock that is
asked anew at each lookup is taken to stand still while the run lasts. -/
structure LookupTable where
  locale : Locale := .en
  clock : Moment
  statics : List (String × String) := []
  counters : Option Counts := none
  deriving Repr, Inhabited

namespace LookupTable

/-- The table with a user's value, in place of any other under its key. -/
def insert (t : LookupTable) (key value : String) : LookupTable :=
  { t with statics := (key, value) :: t.statics }

/-- The table with more of the user's values; later ones count before
earlier ones. -/
def insertAll (t : LookupTable) (pairs : List (String × String)) : LookupTable :=
  pairs.foldl (fun t pair => t.insert pair.1 pair.2) t

/-- Did the user give a value for exactly this key? -/
def hasStatic (t : LookupTable) (key : String) : Bool := (t.statics.lookup key).isSome

/-- The date pattern in a key `DATETIME(pattern)`. -/
def patternArgument? (key : String) : Option String :=
  match Text.after? "DATETIME(".toList key.toList with
  | none => none
  | some rest =>
    if rest.getLast? = some ')' then some (String.ofList rest.dropLast) else none

/-- The date pattern that a key asks for. -/
def datePattern? (t : LookupTable) (key : String) : Option String :=
  if key = "DATE" then some t.locale.datePattern
  else if key = "TIME" then some t.locale.timePattern
  else if key = "DATETIME" then some (t.locale.datePattern ++ ", " ++ t.locale.timePattern)
  else patternArgument? key

/-- The answer of the clock. A text that is no date pattern gets none. -/
def clockValue? (t : LookupTable) (key : String) : Option String :=
  if key = "YEAR" then some (toString t.clock.year)
  else (t.datePattern? key).bind fun pattern => (DatePattern.format t.clock pattern).toOption

/-- The answer of the counters. -/
def counterValue? (t : LookupTable) (key : String) : Option String :=
  t.counters.bind fun counts =>
    if key = "N_PAGES" then some (toString counts.pages)
    else if key = "N_FIGURES" then some (toString counts.figures)
    else if key = "N_TABLES" then some (toString counts.tables)
    else if key = "N_FORMULAS" then some (toString counts.formulas)
    else none

/-- The answer of the user's values. -/
def staticValue? (t : LookupTable) (key : String) : Option String :=
  if isReserved (keyName key) then none else t.statics.lookup key

/-- What a key stands for. -/
def lookup? (t : LookupTable) (key : String) : Option String :=
  ((t.clockValue? key).or (t.counterValue? key)).or (t.staticValue? key)

end LookupTable
end Compositor.Macro
