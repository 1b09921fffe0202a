/-
# Locales

A locale fixes the short forms of date and time and the title of a table of
contents.

Key definitions: `Locale`, `Locale.datePattern`, `Locale.timePattern`,
`Locale.contentsTitle`.
-/
namespace Compositor

inductive Locale where
  | en
  | ru
  | de
  deriving Repr, DecidableEq, Inhabited

namespace Locale

def all : List Locale := [en, ru, de]

/-- The two letters of the language. -/
def code : Locale → String
  | en => "en"
  | ru => "ru"
  | de => "de"

/-- The locale with the given code. -/
def ofCode? (code : String) : Option Locale := all.find? (·.code = code)

/-- The short form of a date. -/
def datePattern : Locale → String
  | en => "M/d/yy"
  | ru => "dd.MM.yyyy"
  | de => "dd.MM.yy"

/-- The short form of a time of day. -/
def timePattern : Locale → String
  | en => "h:mm a"
  | ru | de => "HH:mm"

/-- The title of a table of contents. -/
def contentsTitle : Locale → String
  | en => "Contents"
  | ru => "Оглавление"
  | de => "Inhaltsverzeichnis"

end Locale
end Compositor
