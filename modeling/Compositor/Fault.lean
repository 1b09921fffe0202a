/-
# Faults

A fault stops the work on a document. Its message says what could not be
done; some faults have a cause besides, with a message of its own.

Key definitions: `Fault`, `Fault.message`, `Fault.cause?`.
-/
import Compositor.Document.Query
import Compositor.File.Document

namespace Compositor

/-- What is wrong with the paths of a run. -/
inductive PathFault where
  /-- There is no file to read; `role` says what it should hold. -/
  | noFile (role path : String)
  /-- Two of the three paths are one. -/
  | notDistinct
  /-- The output is there already and must not be overwritten. -/
  | outputExists (path : String)
  deriving Repr, DecidableEq

def PathFault.message : PathFault → String
  | noFile role path => role ++ " file " ++ path ++ " does not exist"
  | notDistinct => "template, main text and output must be three different files"
  | outputExists path =>
    "output file " ++ path ++ " already exists; use --force to overwrite it"

/-- Why the work on a document stops. -/
inductive Fault where
  /-- After the last pass allowed, a directive is still to be included. -/
  | includeTooDeep (limit : Nat) (pending : String)
  | property (fault : PropertyFault)
  | paths (fault : PathFault)
  | load (path : String) (fault : LoadFault)
  | stale (fault : StaleRange)
  | macroFile (path : String) (fault : LoadFault)
  | definition (text : String)
  | output (path : String) (fault : OsFault)
  deriving Repr, DecidableEq

namespace Fault

def message : Fault → String
  | includeTooDeep limit pending =>
    "%INCLUDE% nested too deeply; maximal depth is " ++ toString limit
      ++ " (still unresolved: " ++ pending ++ ")"
  | property fault => fault.message
  | paths fault => fault.message
  | load path fault => "failed to load " ++ path ++ ": " ++ fault.message
  | stale fault => fault.message
  | macroFile path _ => "cannot read macro file " ++ path
  | definition text => "invalid macro definition '" ++ text ++ "', expected KEY=VALUE"
  | output path _ => "cannot write " ++ path

/-- The message of the cause, if the message of the fault does not give it. -/
def cause? : Fault → Option String
  | macroFile _ fault => some fault.message
  | output _ fault => some fault.message
  | _ => none

end Fault
end Compositor
