/-
# Values of the data format

A value is null, a truth value, a number, a string, an array or an object.
A string literal can escape half a surrogate pair and then stands for no
text.

Key definitions: `Json`, `Json.str`, `Json.int`, `Json.obj`.
-/
import Compositor.Json.Numeral

namespace Compositor

/-- A value of the data format. A string or a key without a text is `none`;
the members of an object are in the order in which they are written. -/
inductive Json where
  | null
  | bool (b : Bool)
  | number (n : Json.Numeral)
  | string (text? : Option String)
  | array (items : List Json)
  | object (members : List (Option String × Json))
  deriving Repr, Inhabited

namespace Json

/-- A string that stands for a text. -/
def str (s : String) : Json := string (some s)

/-- An integer. -/
def int (n : Int) : Json := number (.ofInt n)

/-- An object whose keys are texts. -/
def obj (members : List (String × Json)) : Json :=
  object (members.map fun (key, value) => (some key, value))

end Json
end Compositor
