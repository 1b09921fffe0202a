/-
# Reading records

A record is written as an object with a member for each field, or as an
array of its fields in order. An object may hold members that are no fields,
but none twice that is one, and every key has to be a text; of an array, only
fields at its end with a value to assume may be left out.

A choice between named alternatives is written as an object with the name as
its only key, and one that carries nothing also as the name alone.

Key definitions: `Json.record?`, `Json.required`, `Json.nullable`,
`Json.assumed`, `Json.choice?`, `Json.list?`, `Json.natural?`.
-/
import Compositor.Json.Basic

namespace Compositor.Json

/-! ### Simple values -/

def text? : Json → Option String
  | string text? => text?
  | _ => none

def bool? : Json → Option Bool
  | bool b => some b
  | _ => none

/-- An integer. -/
def integer? : Json → Option Int
  | number n => n.integer?
  | _ => none

/-- A natural number below a bound. -/
def natural? (bound : Nat) (v : Json) : Option Nat :=
  match integer? v with
  | some (.ofNat n) => if n < bound then some n else none
  | _ => none

def number? : Json → Option Numeral
  | number n => some n
  | _ => none

/-- The items of an array, each read by `read`. -/
def list? {α : Type} (read : Json → Option α) : Json → Option (List α)
  | array vs => vs.mapM read
  | _ => none

/-! ### Fields -/

/-- A field that has to be there. -/
def required {α : Type} (read : Json → Option α) (field : Option Json) : Option α := field.bind read

/-- A field that may be null or left out. -/
def nullable {α : Type} (read : Json → Option α) : Option Json → Option (Option α)
  | none | some null => some none
  | some v => (read v).map some

/-- A field with a value to assume if it is left out. -/
def assumed {α : Type} (value : α) (read : Json → Option α) : Option Json → Option α
  | none => some value
  | some v => read v

/-- The members under the given names, if every key is a text and no name
comes twice. -/
def fieldsOf? (names : List String) (members : List (Option String × Json)) :
    Option (List (Option Json)) :=
  if (members.all fun m => m.1.isSome)
      && names.all fun name => members.countP (fun m => m.1 = some name) ≤ 1 then
    some (names.map fun name => members.lookup (some name))
  else none

/-- The fields of a record with the given names, as far as they are there.
Of an array the last `spare` fields may be left out. -/
def record? (names : List String) (spare : Nat) : Json → Option (List (Option Json))
  | object members => fieldsOf? names members
  | array items =>
    if names.length ≤ items.length + spare ∧ items.length ≤ names.length then
      some (items.map some ++ List.replicate (names.length - items.length) none)
    else none
  | _ => none

/-! ### Choices -/

/-- The name of the alternative chosen, and what it carries: null if it
carries nothing. -/
def choice? : Json → Option (String × Json)
  | string (some name) => some (name, null)
  | object [(some name, v)] => some (name, v)
  | _ => none

/-- An alternative that carries something. -/
def chosen (name : String) (v : Json) : Json := obj [(name, v)]

end Compositor.Json
