/-
# Progress

Processing goes through named stages, and within a stage counts what it has
done. Nothing depends on who listens.

Key definitions: `Notice`, `progressLine`.
-/
namespace Compositor

/-- A step forward. -/
inductive Notice where
  | stage (name : String)
  | count (current total : Nat)
  deriving Repr, DecidableEq, Inhabited

/-- The line that shows how far a stage is. A total without a current number
says nothing. -/
def progressLine (stage : String) (current total : Option Nat) : String :=
  match current, total with
  | some current, some total =>
    stage ++ " (" ++ toString current ++ "/" ++ toString total ++ ")..."
  | some current, none => stage ++ " (" ++ toString current ++ ")..."
  | none, _ => stage ++ "..."

end Compositor
