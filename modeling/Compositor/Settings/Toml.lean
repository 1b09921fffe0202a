/-
# Settings as a file

Every setting has a key; one that the file does not give keeps its default,
and keys that are no settings do not matter. A locale is given by its code.

Key definitions: `Settings.ofMembers?`, `Settings.parse?`, `Settings.print`.
-/
import Compositor.Settings
import Compositor.Toml.Parser
import Compositor.Toml.Printer

namespace Compositor

def Settings.localeKey : String := "locale"

def Settings.limitKey : String := "include_depth_limit"

def Settings.titleKey : String := "toc_title"

def Settings.verboseKey : String := "verbose"

/-- Limits are below this number. -/
def Settings.limitBound : Nat := Nat.pow 2 64

namespace Toml

def string? : Toml → Option String
  | string s => some s
  | _ => none

def boolean? : Toml → Option Bool
  | boolean b => some b
  | _ => none

/-- A natural number below the bound of limits. -/
def limit? : Toml → Option Nat
  | integer (.ofNat n) => if n < Settings.limitBound then some n else none
  | _ => none

/-- Does the value hold nothing? -/
def isEmpty : Toml → Bool
  | array items => items.isEmpty
  | table _ members => members.isEmpty
  | _ => false

/-- A choice between alternatives that carry nothing: a name, or a table with
the name as its only key. -/
def choice? : Toml → Option String
  | string name => some name
  | table _ [(name, v)] => if v.isEmpty then some name else none
  | _ => none

def locale? (v : Toml) : Option Locale := v.choice?.bind Locale.ofCode?

/-- The value of a key, read by `read`, or a default if there is none. -/
def member? {α : Type} (members : Members) (key : String) (default : α)
    (read : Toml → Option α) : Option α :=
  match members.lookup key with
  | none => some default
  | some v => read v

end Toml

namespace Settings
open Toml

/-- The settings that a table gives. -/
def ofMembers? (members : Members) : Option Settings := do
  let defaults : Settings := {}
  return {
    locale := ← member? members localeKey defaults.locale locale?
    includeDepthLimit := ← member? members limitKey defaults.includeDepthLimit limit?
    contentsTitle := ← member? members titleKey defaults.contentsTitle fun v => v.string?.map some
    verbose := ← member? members verboseKey defaults.verbose boolean? }

/-- The settings in a text. -/
def parse? (s : String) : Option Settings := (Toml.parse? s).bind ofMembers?

/-- A line with a key and its value. -/
def entry (key : String) (value : List Char) : List Char :=
  key.toList ++ " = ".toList ++ value ++ ['\n']

def quoted (s : String) : List Char := Toml.quote s.toList

/-- The settings as text. A title is written if there is one. -/
def print (s : Settings) : String :=
  String.ofList <|
    entry localeKey (quoted s.locale.code)
      ++ entry limitKey (toString s.includeDepthLimit).toList
      ++ (match s.contentsTitle with
        | none => []
        | some title => entry titleKey (quoted title))
      ++ entry verboseKey (toString s.verbose).toList

end Settings
end Compositor
