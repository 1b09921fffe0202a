/-
# Reading the data format

The tokens of a text are read one by one with a stack of the arrays and
objects that are still open. Nesting has no limit, and nothing may follow
the value.

Key definitions: `Json.Frame`, `Json.Reader`, `Json.Reader.step`,
`Json.parse?`.
-/
import Compositor.Json.Token

namespace Compositor.Json

/-- An array or an object that is open, with what it holds so far, the last
item first. -/
inductive Frame where
  | array (items : List Json)
  /-- An object whose next key has not come yet. -/
  | object (members : List (Option String × Json))
  /-- An object after a key, waiting for its value. -/
  | member (key : Option String) (members : List (Option String × Json))
  deriving Repr, Inhabited

/-- What may come next. -/
inductive Expecting where
  /-- A value. -/
  | value
  /-- A value, or the end of the array just opened. -/
  | firstItem
  /-- A key. -/
  | key
  /-- A key, or the end of the object just opened. -/
  | firstKey
  /-- The colon after a key. -/
  | colon
  /-- A comma or the end of what is open; at the top nothing. -/
  | next
  deriving Repr, DecidableEq, Inhabited

/-- The state of reading: what is open, the innermost first, what may come
next, and the value read if nothing is open. -/
structure Reader where
  frames : List Frame := []
  expecting : Expecting := .value
  value? : Option Json := none
  deriving Repr, Inhabited

namespace Reader

/-- A value is complete: it goes into the innermost open frame. -/
def add (frames : List Frame) (v : Json) : Reader :=
  match frames with
  | [] => ⟨[], .next, some v⟩
  | .array items :: frames => ⟨.array (v :: items) :: frames, .next, none⟩
  | .member key members :: frames => ⟨.object ((key, v) :: members) :: frames, .next, none⟩
  | .object members :: frames => ⟨.object members :: frames, .next, none⟩

/-- The state after one more token, if the token may come here. -/
def step (r : Reader) (t : Token) : Option Reader :=
  match r.expecting, t, r.frames with
  | .firstItem, .closeArray, .array items :: frames => some (add frames (.array items.reverse))
  | .value, .scalar v, frames | .firstItem, .scalar v, frames => some (add frames v)
  | .value, .string s, frames | .firstItem, .string s, frames => some (add frames (.string s))
  | .value, .openArray, frames | .firstItem, .openArray, frames =>
    some ⟨.array [] :: frames, .firstItem, none⟩
  | .value, .openObject, frames | .firstItem, .openObject, frames =>
    some ⟨.object [] :: frames, .firstKey, none⟩
  | .firstKey, .closeObject, .object members :: frames =>
    some (add frames (.object members.reverse))
  | .key, .string s, .object members :: frames
  | .firstKey, .string s, .object members :: frames =>
    some ⟨.member s members :: frames, .colon, none⟩
  | .colon, .colon, frames => some ⟨frames, .value, none⟩
  | .next, .comma, .array items :: frames => some ⟨.array items :: frames, .value, none⟩
  | .next, .comma, .object members :: frames => some ⟨.object members :: frames, .key, none⟩
  | .next, .closeArray, .array items :: frames => some (add frames (.array items.reverse))
  | .next, .closeObject, .object members :: frames =>
    some (add frames (.object members.reverse))
  | _, _, _ => none

/-- The state after more tokens, if all of them may come. -/
def run : Reader → List Token → Option Reader
  | r, [] => some r
  | r, t :: ts =>
    match r.step t with
    | none => none
    | some r => r.run ts

end Reader

/-- The value that a text is written for. -/
def parse? (s : String) : Option Json :=
  match tokens? s.toList with
  | none => none
  | some tokens => (Reader.run {} tokens).bind (·.value?)

end Compositor.Json
