/-
# Date patterns

A date pattern is a text in which a run of one letter stands for a field of
a moment, as in `dd.MM.yyyy`, text in apostrophes stands for itself, and two
apostrophes stand for one. `parse` reads a pattern into its parts, which
`render` fills in for a moment and `percentForm` writes in percent
specifiers.

Key definitions: `Field`, `Part`, `DatePattern.parse`, `DatePattern.render`,
`DatePattern.percentForm`.
-/
import Compositor.Calendar.Moment

namespace Compositor.DatePattern

/-- A field of a moment in one of its forms. -/
inductive Field where
  | year
  | yearOfCentury
  | month
  | monthTwoDigits
  | monthShortName
  | monthName
  | day
  | dayTwoDigits
  | hour
  | hourTwoDigits
  | hour12
  | hour12TwoDigits
  | minute
  | minuteTwoDigits
  | second
  | secondTwoDigits
  | millisecond
  | halfOfDay
  | weekdayShortName
  | weekdayName
  deriving Repr, DecidableEq

/-- A part of a pattern. -/
inductive Part where
  | literal (c : Char)
  | field (f : Field)
  deriving Repr, DecidableEq

/-- Why a text is no date pattern. -/
inductive Fault where
  | unterminatedQuote (pattern : String)
  | unsupportedLetter (letter : Char) (pattern : String)
  deriving Repr, DecidableEq

def Fault.message : Fault → String
  | .unterminatedQuote pattern => "unterminated quote in date pattern '" ++ pattern ++ "'"
  | .unsupportedLetter letter pattern =>
    "unsupported letter '" ++ letter.toString ++ "' in date pattern '" ++ pattern ++ "'"

/-- The field that `run` copies of a letter stand for. -/
def field? (letter : Char) (run : Nat) : Option Field :=
  match letter with
  | 'y' => some (if run = 2 then .yearOfCentury else .year)
  | 'M' =>
    some (match run with
      | 1 => .month
      | 2 => .monthTwoDigits
      | 3 => .monthShortName
      | _ => .monthName)
  | 'd' => some (if run = 1 then .day else .dayTwoDigits)
  | 'H' => some (if run = 1 then .hour else .hourTwoDigits)
  | 'h' => some (if run = 1 then .hour12 else .hour12TwoDigits)
  | 'm' => some (if run = 1 then .minute else .minuteTwoDigits)
  | 's' => some (if run = 1 then .second else .secondTwoDigits)
  | 'S' => some .millisecond
  | 'a' => some .halfOfDay
  | 'E' => some (if run ≤ 3 then .weekdayShortName else .weekdayName)
  | _ => none

/-- Quoted text and what follows its closing apostrophe; `none` if there is
no such apostrophe. -/
def quoted? : List Char → Option (List Char × List Char)
  | [] => none
  | '\'' :: '\'' :: s => (quoted? s).map fun (text, rest) => ('\'' :: text, rest)
  | '\'' :: s => some ([], s)
  | c :: s => (quoted? s).map fun (text, rest) => (c :: text, rest)

theorem length_lt_of_quoted? {s text rest : List Char} (h : quoted? s = some (text, rest)) :
    rest.length < s.length := by
  fun_induction quoted? s generalizing text rest with
  | case1 => cases h
  | case2 s ih =>
    obtain ⟨⟨t, r⟩, ht, he⟩ := Option.map_eq_some_iff.1 h
    cases he
    have := ih ht
    simp
    omega
  | case3 s => cases h; simp
  | case4 c s _ _ ih =>
    obtain ⟨⟨t, r⟩, ht, he⟩ := Option.map_eq_some_iff.1 h
    cases he
    have := ih ht
    simp
    omega

/-- The parts of the rest `s` of the text `pattern`. -/
def partsOf (pattern : String) (s : List Char) : Except Fault (List Part) :=
  match s with
  | [] => .ok []
  | '\'' :: '\'' :: rest => (partsOf pattern rest).map (.literal '\'' :: ·)
  | '\'' :: inner =>
    match _h : quoted? inner with
    | none => .error (.unterminatedQuote pattern)
    | some (text, rest) => (partsOf pattern rest).map (text.map .literal ++ ·)
  | c :: rest =>
    if c.isAlpha then
      match field? c (1 + (rest.takeWhile (· = c)).length) with
      | none => .error (.unsupportedLetter c pattern)
      | some f => (partsOf pattern (rest.dropWhile (· = c))).map (.field f :: ·)
    else (partsOf pattern rest).map (.literal c :: ·)
termination_by s.length
decreasing_by
  · simp only [List.length_cons]
    omega
  · have := length_lt_of_quoted? _h
    simp only [List.length_cons]
    omega
  · have := (List.dropWhile_sublist (fun x => decide (x = c)) (l := rest)).length_le
    simp
    omega
  · simp

/-- The parts of a date pattern. -/
def parse (pattern : String) : Except Fault (List Part) := partsOf pattern pattern.toList

/-- A number in at least `width` digits. -/
def padded (width n : Nat) : String :=
  let digits := toString n
  String.ofList (List.replicate (width - digits.length) '0') ++ digits

/-- A year in at least four digits, with a sign if it is negative or has
more. -/
def fullYear (year : Int) : String :=
  let sign := if year < 0 then "-" else if 9999 < year then "+" else ""
  sign ++ padded 4 year.natAbs

/-- The first three letters of a name. -/
def shortName (name : String) : String := String.ofList (name.toList.take 3)

/-- A field of a moment. -/
def Field.render (m : Moment) : Field → String
  | year => fullYear m.year
  | yearOfCentury => padded 2 (m.year % 100).toNat
  | month => toString m.month
  | monthTwoDigits => padded 2 m.month
  | monthShortName => shortName m.monthName
  | monthName => m.monthName
  | day => toString m.day
  | dayTwoDigits => padded 2 m.day
  | hour => toString m.hour
  | hourTwoDigits => padded 2 m.hour
  | hour12 => toString m.hour12
  | hour12TwoDigits => padded 2 m.hour12
  | minute => toString m.minute
  | minuteTwoDigits => padded 2 m.minute
  | second => toString m.clockSecond
  | secondTwoDigits => padded 2 m.clockSecond
  | millisecond => padded 3 m.clockMillisecond
  | halfOfDay => if m.isAfternoon then "PM" else "AM"
  | weekdayShortName => shortName m.weekdayName
  | weekdayName => m.weekdayName

/-- The percent specifier of a field. -/
def Field.percentForm : Field → String
  | year => "%Y"
  | yearOfCentury => "%y"
  | month => "%-m"
  | monthTwoDigits => "%m"
  | monthShortName => "%b"
  | monthName => "%B"
  | day => "%-d"
  | dayTwoDigits => "%d"
  | hour => "%-H"
  | hourTwoDigits => "%H"
  | hour12 => "%-I"
  | hour12TwoDigits => "%I"
  | minute => "%-M"
  | minuteTwoDigits => "%M"
  | second => "%-S"
  | secondTwoDigits => "%S"
  | millisecond => "%3f"
  | halfOfDay => "%p"
  | weekdayShortName => "%a"
  | weekdayName => "%A"

def Part.render (m : Moment) : Part → String
  | literal c => c.toString
  | field f => f.render m

/-- A part in percent specifiers, in which a percent sign is doubled. -/
def Part.percentForm : Part → String
  | literal c => if c = '%' then "%%" else c.toString
  | field f => f.percentForm

/-- The parts filled in for a moment. -/
def render (m : Moment) (parts : List Part) : String := String.join (parts.map (·.render m))

/-- The parts in percent specifiers. -/
def percentForm (parts : List Part) : String := String.join (parts.map (·.percentForm))

/-- A moment in the form of a date pattern. -/
def format (m : Moment) (pattern : String) : Except Fault String :=
  (parse pattern).map (render m)

end Compositor.DatePattern
